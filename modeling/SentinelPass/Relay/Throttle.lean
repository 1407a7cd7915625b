import SentinelPass.Lib.Table
import SentinelPass.Lib.Text
import SentinelPass.Lib.TokenBucket

/-!
# The throttle of the public routes

`rate_limit.rs` and `public_rate_limit_middleware` of `server.rs`. Requests without
credentials are counted per path and per address the middleware takes for the client's;
a request that gets past reaches the handlers that verify pairing tokens.

Instants are seconds and an `f64` is a rational that `Lib.f64` rounded. A client reaches
the relay directly or through a proxy that appends the address it sees to
`X-Forwarded-For`. Events stand in the order in which they take the limiter's lock.
-/

namespace SentinelPass.Relay

open Lib List Option

/-! ## The limiter -/

/-- `HourlyBucket` and `DailyBucket`. -/
structure QuotaBucket where
  count : Nat
  windowStart : ℚ

structure RateLimiter where
  buckets : Table Text Bucket
  maxTokens : Nat
  refillRate : ℚ
  hourlyBuckets : Table Text QuotaBucket
  hourlyLimit : Nat
  dailyBuckets : Table Text QuotaBucket
  dailyLimit : Nat

def saturatingMul (a b : Nat) : Nat := min (a * b) (2 ^ 32 - 1)

def RateLimiter.new (requestsPerMinute : UInt32) : RateLimiter where
  buckets := .empty
  maxTokens := requestsPerMinute.toNat
  refillRate := f64 (requestsPerMinute.toNat / 60)
  hourlyBuckets := .empty
  hourlyLimit := saturatingMul requestsPerMinute.toNat 10
  dailyBuckets := .empty
  dailyLimit := saturatingMul requestsPerMinute.toNat 100

def RateLimiter.checkMinuteLimit (l : RateLimiter) (key : Text) (now : ℚ) : Bool × RateLimiter :=
  let bucket := (l.buckets.get? key).getD ⟨l.maxTokens, now⟩
  let (within, bucket) := bucket.take l.maxTokens l.refillRate now
  (within, { l with buckets := l.buckets.upsert key bucket fun _ => bucket })

/-- A fixed window: it starts anew once it is over. -/
def QuotaBucket.count? (b : QuotaBucket) (window : ℚ) (limit : Nat) (now : ℚ) :
    Bool × QuotaBucket :=
  let b := if window ≤ max 0 (now - b.windowStart) then ⟨0, now⟩ else b
  if b.count < limit then (true, { b with count := b.count + 1 }) else (false, b)

def RateLimiter.checkHourlyLimit (l : RateLimiter) (key : Text) (now : ℚ) : Bool × RateLimiter :=
  let bucket := (l.hourlyBuckets.get? key).getD ⟨0, now⟩
  let (within, bucket) := bucket.count? 3600 l.hourlyLimit now
  (within, { l with hourlyBuckets := l.hourlyBuckets.upsert key bucket fun _ => bucket })

def RateLimiter.checkDailyLimit (l : RateLimiter) (key : Text) (now : ℚ) : Bool × RateLimiter :=
  let bucket := (l.dailyBuckets.get? key).getD ⟨0, now⟩
  let (within, bucket) := bucket.count? 86400 l.dailyLimit now
  (within, { l with dailyBuckets := l.dailyBuckets.upsert key bucket fun _ => bucket })

def RateLimiter.check (l : RateLimiter) (key : Text) (now : ℚ) : Bool × RateLimiter :=
  match l.checkMinuteLimit key now with
  | (false, l) => (false, l)
  | (true, l) =>
    match l.checkHourlyLimit key now with
    | (false, l) => (false, l)
    | (true, l) => l.checkDailyLimit key now

/-! ## The middleware -/

/-- The fields of `RelayConfig` that the public routes read. -/
structure ThrottleConfig where
  rateLimitPerMinute : UInt32
  trustedProxies : List Text
  allowV1 : Bool

/-- A request as the middleware sees it. -/
structure PublicRequest where
  peer : Text
  /-- The bytes of `X-Forwarded-For`, one character each. -/
  forwardedFor : Option Text
  path : Text
  now : ℚ

/-- `HeaderValue::to_str`. -/
def headerText (value : Text) : Option Text :=
  if value.all fun c => (32 ≤ c.toNat && c.toNat < 127) || c.toNat = 9 then some value else none

def firstForwarded (xff : Text) : Option Text :=
  let first := trim (xff.takeWhile (· ≠ ','))
  if first = [] then none else some first

def effectiveClientIp (peerIp : Text) (xff : Option Text) (trustedProxies : List Text) : Text :=
  if peerIp ∈ trustedProxies then (xff.bind firstForwarded).getD peerIp else peerIp

def publicKey (path clientIp : Text) : Text :=
  "public:".toList ++ path ++ ':' :: clientIp

/-- `public_rate_limit_middleware`: whether the request goes on. -/
def publicRateLimitMiddleware (cfg : ThrottleConfig) (l : RateLimiter) (req : PublicRequest) :
    Bool × RateLimiter :=
  if req.path = "/health".toList then (true, l)
  else
    l.check (publicKey req.path (effectiveClientIp req.peer (req.forwardedFor.bind headerText)
      cfg.trustedProxies)) req.now

/-! ## The requests of one client -/

/-- The public routes of pairing and registration. The token of `fetch` is the text that
stands in the path, before it is percent-decoded. -/
inductive Route
  | register
  | registerV1
  | retrieve
  | fetch (token : Text)

/-- A route, whatever is in its path. -/
inductive RouteKind
  | register
  | registerV1
  | retrieve
  | fetch
deriving DecidableEq

def Route.kind : Route → RouteKind
  | register => .register
  | registerV1 => .registerV1
  | retrieve => .retrieve
  | fetch _ => .fetch

def Route.path : Route → Text
  | register => "/api/v2/devices/register".toList
  | registerV1 => "/api/v1/devices/register".toList
  | retrieve => "/api/v2/pairing/bootstrap/retrieve".toList
  | fetch token => "/api/v1/pairing/bootstrap/".toList ++ token

/-- The routes that are gone unless `allow_v1` is set. -/
def Route.isV1 : Route → Bool
  | registerV1 | fetch _ => true
  | register | retrieve => false

/-- An address as `IpAddr` prints it. -/
structure ClientAddress where
  text : Text
  nonempty : text ≠ []
  trimmed : Trimmed text
  visible : headerText text = some text
  single : ',' ∉ text

/-- How a request reaches the relay. `own` is what the client itself put into
`X-Forwarded-For`. -/
inductive Delivery
  | direct (own : Option Text)
  | proxied (proxy : Text) (own : Option Text)

structure ClientRequest where
  route : Route
  delivery : Delivery
  now : ℚ

def appendForwarded (own : Option Text) (client : Text) : Text :=
  match own with
  | none => client
  | some header => header ++ ", ".toList ++ client

def ClientRequest.toRequest (r : ClientRequest) (client : ClientAddress) : PublicRequest :=
  match r.delivery with
  | .direct own => ⟨client.text, own, r.route.path, r.now⟩
  | .proxied proxy own => ⟨proxy, some (appendForwarded own client.text), r.route.path, r.now⟩

/-- The proxies that append the address are the trusted ones. -/
def ClientRequest.Possible (cfg : ThrottleConfig) (r : ClientRequest) : Prop :=
  match r.delivery with
  | .direct _ => True
  | .proxied proxy _ => proxy ∈ cfg.trustedProxies

/-- The gate for retired routes, then the throttle. -/
def ClientRequest.getsPast (cfg : ThrottleConfig) (l : RateLimiter) (client : ClientAddress)
    (r : ClientRequest) : Bool × RateLimiter :=
  if r.route.isV1 && !cfg.allowV1 then (false, l)
  else publicRateLimitMiddleware cfg l (r.toRequest client)

/-- A request of the client, or of somebody else. -/
inductive Event
  | client (r : ClientRequest)
  | other (r : PublicRequest)

def Event.now : Event → ℚ
  | client r => r.now
  | other r => r.now

/-- The client's requests that get past the throttle. -/
def passed (cfg : ThrottleConfig) (client : ClientAddress) :
    RateLimiter → List Event → List ClientRequest
  | _, [] => []
  | l, .client r :: rest =>
    let (past, l') := r.getsPast cfg l client
    if past then r :: passed cfg client l' rest else passed cfg client l' rest
  | l, .other r :: rest => passed cfg client (publicRateLimitMiddleware cfg l r).2 rest

/-- The interval of length `t` from `start` on. -/
def within (start t now : ℚ) : Bool := start ≤ now && now ≤ start + t

theorem within_eq_true {start t now : ℚ} :
    within start t now = true ↔ start ≤ now ∧ now ≤ start + t := by
  simp [within]

/-- The requests of one route in an interval. -/
def counted (kind : RouteKind) (start t : ℚ) (r : ClientRequest) : Bool :=
  r.route.kind = kind && within start t r.now

theorem counted_eq_true {kind : RouteKind} {start t : ℚ} {r : ClientRequest} :
    counted kind start t r = true ↔ r.route.kind = kind ∧ start ≤ r.now ∧ r.now ≤ start + t := by
  simp [counted, within]

/-- The requests of the client all have one key: it sends no forwarded header of its own
where one would be trusted, and its requests to the fetch route have one path. -/
def Identified (cfg : ThrottleConfig) (client : ClientAddress) (token : Text) (r : ClientRequest) :
    Prop :=
  (cfg.allowV1 = true → ∀ presented, r.route = .fetch presented → presented = token) ∧
    match r.delivery with
    | .direct own => client.text ∈ cfg.trustedProxies → own = none
    | .proxied _ own => own = none

/-! ## One look at the limiter -/

section Limiter

variable (l : RateLimiter) (key : Text) (now : ℚ)

open RateLimiter

theorem RateLimiter.check_eq :
    (l.check key now).2.buckets = (l.checkMinuteLimit key now).2.buckets ∧
      (l.check key now).2.maxTokens = l.maxTokens ∧
      (l.check key now).2.refillRate = l.refillRate := by
  unfold check checkHourlyLimit checkDailyLimit
  cases hminute : l.checkMinuteLimit key now with
  | mk within l' =>
    have hrates : l'.maxTokens = l.maxTokens ∧ l'.refillRate = l.refillRate := by
      cases hminute
      exact ⟨rfl, rfl⟩
    cases within with
    | false => exact ⟨rfl, hrates⟩
    | true =>
      dsimp only
      split
      · next hhour =>
        obtain ⟨-, rfl⟩ := Prod.mk.inj hhour
        exact ⟨rfl, hrates⟩
      · next hhour =>
        obtain ⟨-, rfl⟩ := Prod.mk.inj hhour
        exact ⟨rfl, hrates⟩

theorem RateLimiter.checkMinuteLimit_of_check (h : (l.check key now).1 = true) :
    (l.checkMinuteLimit key now).1 = true := by
  unfold check at h
  cases hminute : l.checkMinuteLimit key now with
  | mk within l' =>
    cases within with
    | false =>
      rw [hminute] at h
      cases h
    | true => rfl

def RateLimiter.bucketAt : Bucket := (l.buckets.get? key).getD ⟨l.maxTokens, now⟩

theorem RateLimiter.checkMinuteLimit_fst : (l.checkMinuteLimit key now).1
      = ((l.bucketAt key now).take l.maxTokens l.refillRate now).1 := rfl

theorem RateLimiter.get?_check (key' : Text) : (l.check key now).2.buckets.get? key'
      = if key' = key then some ((l.bucketAt key now).take l.maxTokens l.refillRate now).2
        else l.buckets.get? key' := by
  rw [(l.check_eq key now).1]
  unfold checkMinuteLimit bucketAt
  rw [Table.get?_upsert]
  cases l.buckets.get? key with
  | none => rfl
  | some b => rfl

end Limiter

/-- What the bucket of one key tells about the `n` requests that were counted, after
`looks` requests in the interval. -/
structure Tracks (key : Text) (capacity : Nat) (rate start t : ℚ) (l : RateLimiter)
    (n looks : Nat) (last : ℚ) : Prop where
  maxTokens : l.maxTokens = capacity
  refillRate : l.refillRate = rate
  window : ∀ {now}, last ≤ now → WindowInv capacity rate start t n looks (l.bucketAt key now)
  past : ∀ {now}, last ≤ now → (l.bucketAt key now).lastRefill ≤ now

section Run

variable {cfg : ThrottleConfig} {client : ClientAddress} {token key : Text} {capacity : Nat}
  {rate start t : ℚ} {l : RateLimiter} {last : ℚ} {n looks : Nat} {r : ClientRequest}

theorem refillRate_nonneg (requestsPerMinute : UInt32) :
    0 ≤ f64 (requestsPerMinute.toNat / 60) :=
  f64_nonneg (div_nonneg (Nat.cast_nonneg _) (by norm_num))

/-- Requests in the interval after one at `now`. -/
def looksAfter (start t : ℚ) (looks : Nat) (now : ℚ) : Nat :=
  if within start t now then looks + 1 else looks

theorem le_looksAfter (looks : Nat) (now : ℚ) : looks ≤ looksAfter start t looks now := by
  unfold looksAfter
  split <;> omega

theorem Tracks.later {now : ℚ} (h : Tracks key capacity rate start t l n looks last)
    (hnow : last ≤ now) :
    Tracks key capacity rate start t l n (looksAfter start t looks now) now where
  maxTokens := h.maxTokens
  refillRate := h.refillRate
  window hlater := (h.window (le_trans hnow hlater)).mono (le_looksAfter _ _)
  past hlater := h.past (le_trans hnow hlater)

/-- A request with any key is one more look; it is counted if it has this one, gets past
and comes in time. -/
theorem Tracks.check {m : Nat} {now : ℚ} {key' : Text} (hsmall : unitRoundoff * capacity ≤ 1)
    (hrate : 0 ≤ rate) (h : Tracks key capacity rate start t l n looks last) (hnow : last ≤ now)
    (hcount : m = n ∨ m = n + 1 ∧ key' = key ∧ (l.check key' now).1 = true ∧ start ≤ now ∧
      now ≤ start + t) :
    Tracks key capacity rate start t (l.check key' now).2 m (looksAfter start t looks now) now := by
  obtain ⟨-, hmax, hrefill⟩ := l.check_eq key' now
  have hget := l.get?_check key' now key
  by_cases hkey : key = key'
  · subst hkey
    rw [if_pos rfl] at hget
    have hafter : ∀ later, (l.check key now).2.bucketAt key later
        = ((l.bucketAt key now).take capacity rate now).2 := by
      intro later
      rw [RateLimiter.bucketAt, hget, h.maxTokens, h.refillRate, getD_some]
    have hlast : ((l.bucketAt key now).take capacity rate now).2.lastRefill = now := by
      unfold Bucket.take
      dsimp only
      split <;> rfl
    refine ⟨by rw [hmax, h.maxTokens], by rw [hrefill, h.refillRate], ?_, ?_⟩
    · intro later _
      rw [hafter later]
      refine (h.window hnow).take (Nat.cast_nonneg capacity) hsmall hrate (h.past hnow)
        (le_looksAfter _ _) (fun hopen hclose => ?_) ?_
      · rw [looksAfter, if_pos (within_eq_true.mpr ⟨hopen, hclose⟩)]
      rcases hcount with rfl | ⟨rfl, -, hpass, hwindow⟩
      · exact .inl rfl
      have hminute := l.checkMinuteLimit_of_check key now hpass
      rw [l.checkMinuteLimit_fst, h.maxTokens, h.refillRate] at hminute
      exact .inr ⟨rfl, hminute, hwindow⟩
    · intro later hlater
      rw [hafter later, hlast]
      exact hlater
  · have hsame : m = n := by
      rcases hcount with h | ⟨-, h, -⟩
      · exact h
      exact absurd h.symm hkey
    subst hsame
    rw [if_neg hkey] at hget
    have hafter : ∀ later, (l.check key' now).2.bucketAt key later = l.bucketAt key later := by
      intro later
      unfold RateLimiter.bucketAt
      rw [hget, hmax]
    have hlater := h.later hnow
    refine ⟨by rw [hmax, h.maxTokens], by rw [hrefill, h.refillRate], ?_, ?_⟩
    · intro later hle
      rw [hafter later]
      exact hlater.window hle
    · intro later hle
      rw [hafter later]
      exact hlater.past hle

theorem Tracks.new (requestsPerMinute : UInt32) (ht : 0 ≤ t) (last : ℚ) :
    Tracks key requestsPerMinute.toNat (f64 (requestsPerMinute.toNat / 60)) start t
      (RateLimiter.new requestsPerMinute) 0 0 last where
  maxTokens := rfl
  refillRate := rfl
  window _ := WindowInv.full (Nat.cast_nonneg _) (refillRate_nonneg _) ht
  past _ := le_rfl

/-! ## The key of the client's requests -/

theorem firstForwarded_address (client : ClientAddress) :
    firstForwarded client.text = some client.text := by
  have hwhole : client.text.takeWhile (· ≠ ',') = client.text := by
    rw [takeWhile_eq_self_iff]
    intro c hc
    exact decide_eq_true fun h => client.single (h ▸ hc)
  unfold firstForwarded
  rw [hwhole, client.trimmed.trim_eq]
  exact if_neg client.nonempty

theorem Identified.clientIp (hpossible : r.Possible cfg) (h : Identified cfg client token r) :
    effectiveClientIp (r.toRequest client).peer
      ((r.toRequest client).forwardedFor.bind headerText) cfg.trustedProxies = client.text := by
  obtain ⟨route, delivery, now⟩ := r
  obtain ⟨-, hdelivery⟩ := h
  cases delivery with
  | direct own =>
    show effectiveClientIp client.text (own.bind headerText) cfg.trustedProxies = client.text
    have hown : client.text ∈ cfg.trustedProxies → own = none := hdelivery
    unfold effectiveClientIp
    split
    · next htrusted =>
      rw [hown htrusted]
      rfl
    · rfl
  | proxied proxy own =>
    show effectiveClientIp proxy ((some (appendForwarded own client.text)).bind headerText)
      cfg.trustedProxies = client.text
    have hown : own = none := hdelivery
    have htrusted : proxy ∈ cfg.trustedProxies := hpossible
    unfold effectiveClientIp
    rw [if_pos htrusted, hown, appendForwarded, bind_some, client.visible,
      bind_some, firstForwarded_address, getD_some]

def RouteKind.path (token : Text) : RouteKind → Text
  | register => Route.register.path
  | registerV1 => Route.registerV1.path
  | retrieve => Route.retrieve.path
  | fetch => (Route.fetch token).path

theorem Route.path_ne_health (route : Route) : route.path ≠ "/health".toList := by
  cases route with
  | register => decide
  | registerV1 => decide
  | retrieve => decide
  | fetch token =>
    intro h
    have hsecond : ((Route.fetch token).path)[1]? = some 'a' := rfl
    rw [h] at hsecond
    exact absurd hsecond (by decide)

theorem getsPast_eq (hpossible : r.Possible cfg) (h : Identified cfg client token r)
    (l : RateLimiter) :
    r.getsPast cfg l client = if r.route.isV1 && !cfg.allowV1 then (false, l)
      else l.check (publicKey r.route.path client.text) r.now := by
  have hpath : (r.toRequest client).path = r.route.path ∧ (r.toRequest client).now = r.now := by
    obtain ⟨route, delivery, now⟩ := r
    cases delivery <;> exact ⟨rfl, rfl⟩
  unfold ClientRequest.getsPast publicRateLimitMiddleware
  rw [hpath.1, hpath.2, if_neg (Route.path_ne_health _), h.clientIp hpossible]

theorem Identified.path_eq (h : Identified cfg client token r)
    (hgate : (r.route.isV1 && !cfg.allowV1) = false) : r.route.path = r.route.kind.path token := by
  obtain ⟨route, delivery, now⟩ := r
  cases route with
  | register => rfl
  | registerV1 => rfl
  | retrieve => rfl
  | fetch presented =>
    have hallow : cfg.allowV1 = true := by
      simpa [Route.isV1] using hgate
    rw [show presented = token from h.1 hallow presented rfl]
    rfl

theorem Tracks.other (hsmall : unitRoundoff * capacity ≤ 1) (hrate : 0 ≤ rate)
    (h : Tracks key capacity rate start t l n looks last) (r : PublicRequest)
    (hnow : last ≤ r.now) :
    Tracks key capacity rate start t (publicRateLimitMiddleware cfg l r).2 n
      (looksAfter start t looks r.now) r.now := by
  unfold publicRateLimitMiddleware
  split
  · exact h.later hnow
  · exact h.check hsmall hrate hnow (.inl rfl)

/-- A request of the client is counted if it gets past, is for the route and comes in time. -/
theorem Tracks.ofClient {kind : RouteKind} (hsmall : unitRoundoff * capacity ≤ 1)
    (hrate : 0 ≤ rate)
    (h : Tracks (publicKey (kind.path token) client.text) capacity rate start t l n looks last)
    (hnow : last ≤ r.now) (hpossible : r.Possible cfg) (hid : Identified cfg client token r) :
    Tracks (publicKey (kind.path token) client.text) capacity rate start t
      (r.getsPast cfg l client).2
      (if (r.getsPast cfg l client).1 && counted kind start t r then n + 1 else n)
      (looksAfter start t looks r.now) r.now := by
  rw [getsPast_eq hpossible hid l]
  cases hgate : r.route.isV1 && !cfg.allowV1 with
  | true => exact h.later hnow
  | false =>
    rw [if_neg Bool.false_ne_true, hid.path_eq hgate]
    refine h.check hsmall hrate hnow ?_
    split
    · next hboth =>
      obtain ⟨hpast, hcounted⟩ := Bool.and_eq_true_iff.mp hboth
      obtain ⟨hkind, hfrom, hto⟩ := counted_eq_true.mp hcounted
      exact .inr ⟨rfl, by rw [hkind], hpast, hfrom, hto⟩
    · exact .inl rfl

theorem length_passed_cons (r : ClientRequest) (l : RateLimiter) (rest : List Event)
    (keep : ClientRequest → Bool) (n : Nat) :
    n + ((passed cfg client l (.client r :: rest)).filter keep).length
      = (if (r.getsPast cfg l client).1 && keep r then n + 1 else n)
        + ((passed cfg client (r.getsPast cfg l client).2 rest).filter keep).length := by
  rw [passed]
  cases r.getsPast cfg l client with
  | mk past l' =>
    cases past with
    | false => rfl
    | true =>
      dsimp only
      rw [if_pos rfl, filter_cons, Bool.true_and]
      cases keep r with
      | false => rfl
      | true =>
        rw [if_pos rfl, if_pos rfl, length_cons]
        omega

/-- The requests in an interval. -/
def looksIn (start t : ℚ) (events : List Event) : Nat :=
  events.countP fun e => within start t e.now

theorem looksIn_cons (event : Event) (rest : List Event) (looks : Nat) :
    looks + looksIn start t (event :: rest)
      = looksAfter start t looks event.now + looksIn start t rest := by
  unfold looksIn looksAfter
  rw [countP_cons]
  split <;> omega

/-- What the bucket tells holds to the end of a run; `n` requests were counted before it. -/
theorem passed_add_le {kind : RouteKind} {events : List Event}
    (hsmall : unitRoundoff * capacity ≤ 1) (hrate : 0 ≤ rate)
    (hpossible : ∀ r, .client r ∈ events → r.Possible cfg)
    (hident : ∀ r, .client r ∈ events → Identified cfg client token r)
    (h : Tracks (publicKey (kind.path token) client.text) capacity rate start t l n looks last)
    (hsorted : (last :: events.map Event.now).Pairwise (· ≤ ·)) :
    ((n + ((passed cfg client l events).filter (counted kind start t)).length : ℕ) : ℚ)
      ≤ capacity + roundedRate rate * t
        + lookSlack capacity * (looks + looksIn start t events : ℕ) := by
  induction events generalizing l n looks last with
  | nil => exact (h.window le_rfl).bounded
  | cons event rest ih =>
    rw [map_cons, pairwise_cons] at hsorted
    obtain ⟨hlast, hrest⟩ := hsorted
    have hnow : last ≤ event.now := hlast _ mem_cons_self
    have hpossible' := fun r hr => hpossible r (mem_cons_of_mem event hr)
    have hident' := fun r hr => hident r (mem_cons_of_mem event hr)
    rw [looksIn_cons]
    cases event with
    | other r => exact ih hpossible' hident' (h.other hsmall hrate r hnow) hrest
    | client r =>
      have hstep := h.ofClient hsmall hrate hnow (hpossible r mem_cons_self)
        (hident r mem_cons_self)
      rw [length_passed_cons]
      exact ih hpossible' hident' hstep hrest

end Run

/-! ## The bound -/

/-- In every run whose requests of the client are identified and whose readings of the clock
stand in the order of the lock, the number of requests of one route that get past the
throttle in `t` seconds is within the burst and the refill, up to the rounding. -/
theorem passed_le (cfg : ThrottleConfig) (client : ClientAddress) (token : Text)
    (kind : RouteKind) (start t : ℚ) (events : List Event) (ht : 0 ≤ t)
    (hsorted : (events.map Event.now).Pairwise (· ≤ ·))
    (hpossible : ∀ r, .client r ∈ events → r.Possible cfg)
    (hident : ∀ r, .client r ∈ events → Identified cfg client token r) :
    ((((passed cfg client (RateLimiter.new cfg.rateLimitPerMinute) events).filter
        (counted kind start t)).length : ℕ) : ℚ)
      ≤ (RateLimiter.new cfg.rateLimitPerMinute).maxTokens
        + (1 + unitRoundoff) ^ 4 * (RateLimiter.new cfg.rateLimitPerMinute).refillRate * t
        + 2 * (unitRoundoff * (RateLimiter.new cfg.rateLimitPerMinute).maxTokens)
          * looksIn start t events := by
  have hrate := refillRate_nonneg cfg.rateLimitPerMinute
  have hcap : (0 : ℚ) ≤ cfg.rateLimitPerMinute.toNat := Nat.cast_nonneg _
  have hsmall : unitRoundoff * cfg.rateLimitPerMinute.toNat ≤ 1 := by
    have hlt : (cfg.rateLimitPerMinute.toNat : ℚ) ≤ (2 ^ 32 : ℕ) :=
      Nat.cast_le.mpr cfg.rateLimitPerMinute.toNat_lt.le
    have hmul := mul_le_mul_of_nonneg_left hlt unitRoundoff_nonneg
    norm_num [unitRoundoff] at hmul ⊢
    linarith
  cases events with
  | nil =>
    exact add_nonneg (add_nonneg hcap (mul_nonneg (roundedRate_nonneg hrate) ht))
      (mul_nonneg (lookSlack_nonneg hcap) (Nat.cast_nonneg _))
  | cons event rest =>
    have hfirst : (event.now :: (event :: rest).map Event.now).Pairwise (· ≤ ·) := by
      rw [map_cons, pairwise_cons] at hsorted ⊢
      refine ⟨fun now hmem => ?_, pairwise_cons.mpr hsorted⟩
      rcases mem_cons.mp hmem with rfl | hmem
      · exact le_rfl
      exact hsorted.1 now hmem
    have hstart : Tracks (publicKey (kind.path token) client.text)
        cfg.rateLimitPerMinute.toNat (f64 (cfg.rateLimitPerMinute.toNat / 60)) start t
        (RateLimiter.new cfg.rateLimitPerMinute) 0 0 event.now :=
      Tracks.new cfg.rateLimitPerMinute ht event.now
    have hle := passed_add_le hsmall hrate hpossible hident hstart hfirst
    rwa [Nat.zero_add, Nat.zero_add] at hle

def sampleClient : ClientAddress where
  text := "10.0.0.7".toList
  nonempty := by decide
  trimmed := trimmed_of_forall (by simp; decide)
  visible := by decide
  single := by decide

def sampleThrottle : ThrottleConfig where
  rateLimitPerMinute := 1
  trustedProxies := ["10.0.0.1".toList]
  allowV1 := true

/-- Two guesses at one token through the proxy, one second apart. -/
def patientGuesses : List Event :=
  [.client ⟨.fetch "123456".toList, .proxied "10.0.0.1".toList none, 0⟩,
    .client ⟨.fetch "123456".toList, .proxied "10.0.0.1".toList none, 1⟩]

theorem passed_le_patient :
    ((passed sampleThrottle sampleClient (RateLimiter.new 1) patientGuesses).filter
        (counted .fetch 0 1)).length = 1 ∧
      ((((passed sampleThrottle sampleClient (RateLimiter.new 1) patientGuesses).filter
          (counted .fetch 0 1)).length : ℕ) : ℚ)
        ≤ (RateLimiter.new 1).maxTokens
          + (1 + unitRoundoff) ^ 4 * (RateLimiter.new 1).refillRate * 1
          + 2 * (unitRoundoff * (RateLimiter.new 1).maxTokens)
            * looksIn 0 1 patientGuesses := by
  refine ⟨by decide +kernel, passed_le sampleThrottle sampleClient "123456".toList .fetch 0 1
    patientGuesses (by norm_num) (by decide +kernel) ?_ ?_⟩
  · intro r hr
    simp only [patientGuesses, mem_cons, Event.client.injEq, not_mem_nil, or_false] at hr
    rcases hr with rfl | rfl <;> exact mem_singleton.mpr rfl
  · intro r hr
    simp only [patientGuesses, mem_cons, Event.client.injEq, not_mem_nil, or_false] at hr
    rcases hr with rfl | rfl <;> exact ⟨fun _ presented h => (Route.fetch.inj h).symm, rfl⟩

/-- The client's own header comes first, so each value of it has a bucket of its own. -/
def rotatingHeaders : List Event :=
  [.client ⟨.register, .proxied "10.0.0.1".toList (some "1".toList), 0⟩,
    .client ⟨.register, .proxied "10.0.0.1".toList (some "2".toList), 0⟩]

/-- The token is in the path, so each token has a bucket of its own. -/
def rotatingTokens : List Event :=
  [.client ⟨.fetch "123456".toList, .direct none, 0⟩,
    .client ⟨.fetch "654321".toList, .direct none, 0⟩]

/-- The third request reads the clock before the second and takes the lock after it, so the
half minute before the fourth is refilled twice. -/
def lateReading : List Event :=
  [0, 31, 1 / 2, 31].map fun now => .client ⟨.register, .direct none, now⟩

/-- Two ways to get a new key, and a reading of the clock that comes late. -/
theorem rotating_identity_not_bounded :
    (1 : ℚ) = (RateLimiter.new 1).maxTokens + (RateLimiter.new 1).refillRate * 0 ∧
      ((passed sampleThrottle sampleClient (RateLimiter.new 1) rotatingHeaders).filter
        (counted .register 0 0)).length = 2 ∧
      ((passed sampleThrottle sampleClient (RateLimiter.new 1) rotatingTokens).filter
        (counted .fetch 0 0)).length = 2 ∧
      (RateLimiter.new 1).maxTokens + (RateLimiter.new 1).refillRate * 31 < 2 ∧
      ((passed sampleThrottle sampleClient (RateLimiter.new 1) lateReading).filter
        (counted .register 0 31)).length = 2 := by
  decide +kernel

end SentinelPass.Relay
