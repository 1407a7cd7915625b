import SentinelPass.Lib.Trim
import SentinelPass.Lib.Utf8
import SentinelPass.Sync.Mac

/-!
# Hosts and domain tags

`domain.rs`. A domain or an address is reduced to its host (`normalizeHost`; the URL
parser is external), two hosts are related when one is a dot-suffix of the other
(`domainsMatch`), and a host is indexed by the keyed tags of its label chains
(`computeChainTagsForNormalized`).
-/

namespace SentinelPass.Daemon

open Lib

/-- External functions: hashes and the `url` crate. -/
structure DomainEnv where
  crypto : Crypto
  /-- `Url::parse`, then `host_str`. -/
  hostStr : Text → Option Text

def stripBrackets (h : Text) : Text :=
  match h with
  | '[' :: rest => if rest.getLast? = some ']' then rest.dropLast else h
  | _ => h

def nonEmpty (h : Text) : Option Text := if h = [] then none else some h

/-- The closure `extract`. -/
def extractHost (h : Text) : Option Text := nonEmpty (stripBrackets (trimMatches '.' h))

def hostText (value : Text) : Text := toAsciiLowercase (trimMatches '.' (trim value))

def bareHost (trimmed : Text) : Option Text :=
  nonEmpty (trimMatches '.' (trimEndMatches ']' ((trimMatches '.' trimmed).dropWhile (· = '['))))

def normalizeHost (E : DomainEnv) (value : Text) : Option Text :=
  let trimmed := hostText value
  if trimmed = [] then none
  else
    ((E.hostStr trimmed).bind extractHost)
      <|> ((E.hostStr ("dummy://".toList ++ trimmed)).bind extractHost)
      <|> bareHost trimmed

def domainsMatch (E : DomainEnv) (requestDomain entryUrlOrDomain : Text) : Bool :=
  match normalizeHost E requestDomain, normalizeHost E entryUrlOrDomain with
  | some requestHost, some entryHost =>
    requestHost = entryHost || ('.' :: entryHost).isSuffixOf requestHost
      || ('.' :: requestHost).isSuffixOf entryHost
  | _, _ => false

/-! ## Tags -/

abbrev Tag := Vector UInt8 32

def maxChainTags : Nat := 10

def domainChainSuffixes (host : Text) : List Text :=
  if host = [] then []
  else
    let labels := host.splitOn '.'
    ((List.range labels.length).map fun i => ['.'].intercalate (labels.drop i)).take maxChainTags

structure ChainTags where
  root : Tag
  suffixes : List Tag

def ChainTags.all (t : ChainTags) : List Tag := t.root :: t.suffixes

def computeChainTagsForNormalized (E : DomainEnv) (tagKey : Bytes) (host : Text) :
    Option ChainTags :=
  match (domainChainSuffixes host).map fun chain =>
    E.crypto.hmacSha256 tagKey (textBytes chain) with
  | [] => none
  | root :: suffixes => some ⟨root, suffixes⟩

def computeDomainChainTags (E : DomainEnv) (tagKey : Bytes) (host : Text) : Option ChainTags :=
  (normalizeHost E host).bind (computeChainTagsForNormalized E tagKey)

section Hosts

variable {E : DomainEnv} {host : Text}

theorem ne_nil_of_nonEmpty {h : Text} (hx : nonEmpty h = some host) : host ≠ [] := by
  unfold nonEmpty at hx
  split at hx
  · cases hx
  rename_i hne
  cases hx
  exact hne

theorem ne_nil_of_normalizeHost {value : Text} (h : normalizeHost E value = some host) :
    host ≠ [] := by
  unfold normalizeHost at h
  dsimp only at h
  split at h
  · cases h
  rw [Option.orElse_eq_some, Option.orElse_eq_some] at h
  rcases h with h | ⟨-, h | ⟨-, h⟩⟩
  · obtain ⟨raw, -, hx⟩ := Option.bind_eq_some_iff.mp h
    exact ne_nil_of_nonEmpty hx
  · obtain ⟨raw, -, hx⟩ := Option.bind_eq_some_iff.mp h
    exact ne_nil_of_nonEmpty hx
  · exact ne_nil_of_nonEmpty h

theorem domainsMatch_eq_true {request entry : Text} : domainsMatch E request entry = true ↔
      ∃ a b, normalizeHost E request = some a ∧ normalizeHost E entry = some b ∧
        (a = b ∨ '.' :: b <:+ a ∨ '.' :: a <:+ b) := by
  unfold domainsMatch
  cases normalizeHost E request <;> cases normalizeHost E entry <;> simp [or_assoc]

theorem domainsMatch_self {domain : Text} :
    domainsMatch E domain domain = true ↔ (normalizeHost E domain).isSome := by
  rw [domainsMatch_eq_true, Option.isSome_iff_exists]
  constructor
  · rintro ⟨a, b, ha, -⟩
    exact ⟨a, ha⟩
  · rintro ⟨a, ha⟩
    exact ⟨a, a, ha, ha, .inl rfl⟩

theorem domainsMatch_congr {a b} (h : normalizeHost E a = normalizeHost E b) (entry) :
    domainsMatch E a entry = domainsMatch E b entry := by
  unfold domainsMatch
  rw [h]

theorem exists_chainTags (tagKey) {host} (h : host ≠ []) :
    ∃ tags, computeChainTagsForNormalized E tagKey host = some tags := by
  have hlabels : host.splitOn '.' ≠ [] := List.splitOn_ne_nil _ _
  obtain ⟨n, hn⟩ := Nat.exists_eq_succ_of_ne_zero (mt List.length_eq_zero_iff.mp hlabels)
  obtain ⟨chain, rest, hchains⟩ : ∃ chain rest, domainChainSuffixes host = chain :: rest := by
    unfold domainChainSuffixes
    rw [if_neg h]
    dsimp only
    rw [hn, List.range_succ_eq_map, List.map_cons, maxChainTags, List.take_succ_cons]
    exact ⟨_, _, rfl⟩
  unfold computeChainTagsForNormalized
  rw [hchains, List.map_cons]
  exact ⟨_, rfl⟩

end Hosts

end SentinelPass.Daemon
