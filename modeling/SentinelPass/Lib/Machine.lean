import Mathlib.Data.List.Basic

/-!
# Labelled machines and their guarded runs

A machine takes one action at a time; an action that is not enabled has no
successor. `Run ok s t` is a finite execution from `s` to `t` whose every step
was allowed by the guard `ok`, a predicate on the state before the step and on
the action. `Run.invariant` packages the induction once: what one guarded step
preserves holds all along a guarded run.

`Except` loops get the same treatment: `foldlM_ok_invariant` carries an
invariant through a fallible fold, and `mem_of_mapM_ok` says what a fallible
pass over a list produced.
-/

namespace SentinelPass.Lib

open List

universe u v

theorem mem_snoc {α : Type u} {l : List α} {a b : α} (h : b ∈ l ++ [a]) : b ∈ l ∨ b = a := by
  simpa using h

/-- What a list that has grown by one holds. -/
theorem getElem?_snoc {α : Type u} {l : List α} {a b : α} {i : Nat} :
    (l ++ [a])[i]? = some b ↔ l[i]? = some b ∨ i = l.length ∧ b = a := by
  rw [getElem?_append]
  split
  · next hlt => simp [Nat.ne_of_lt hlt]
  · next hge =>
    have hend : i = l.length ↔ i - l.length = 0 := by omega
    rw [getElem?_singleton, getElem?_eq_none (Nat.not_lt.mp hge), hend]
    simp [eq_comm]

/-- A labelled transition system with a partial, deterministic step. -/
structure Machine (σ : Type u) (α : Type v) where
  init : σ → Prop
  step : σ → α → Option σ

namespace Machine

variable {σ : Type u} {α : Type v} (M : Machine σ α)

/-- `Run M ok s t`: some sequence of allowed actions leads from `s` to `t`. -/
inductive Run (ok : σ → α → Prop) (s : σ) : σ → Prop
  | refl : Run ok s s
  | step {t u : σ} {a : α} : Run ok s t → ok t a → M.step t a = some u → Run ok s u

/-- Reached from an initial state by allowed actions only. -/
def Reachable (ok : σ → α → Prop) (t : σ) : Prop :=
  ∃ s, M.init s ∧ M.Run ok s t

/-- Run a list of actions; `none` as soon as one is not enabled. -/
def exec (s : σ) : List α → Option σ
  | [] => some s
  | a :: rest => (M.step s a).bind fun t => exec t rest

variable {M} {ok : σ → α → Prop} {s t u : σ}

/-- What one allowed step preserves, an allowed run preserves. -/
theorem Run.invariant {P : σ → Prop} (hrun : M.Run ok s t) (h0 : P s)
    (hstep : ∀ {x y : σ} {a : α}, P x → ok x a → M.step x a = some y → P y) : P t := by
  induction hrun with
  | refl => exact h0
  | step _ hok hs ih => exact hstep ih hok hs

theorem Reachable.invariant {P : σ → Prop} (hr : M.Reachable ok t)
    (h0 : ∀ {x : σ}, M.init x → P x)
    (hstep : ∀ {x y : σ} {a : α}, P x → ok x a → M.step x a = some y → P y) : P t := by
  obtain ⟨s, hs, hrun⟩ := hr
  exact hrun.invariant (h0 hs) hstep

theorem Run.trans (h1 : M.Run ok s t) (h2 : M.Run ok t u) : M.Run ok s u := by
  induction h2 with
  | refl => exact h1
  | step _ hok hs ih => exact ih.step hok hs

variable {ok' : σ → α → Prop}

/-- A weaker guard allows at least the same runs. -/
theorem Run.mono (himp : ∀ {x : σ} {a : α}, ok x a → ok' x a) (h : M.Run ok s t) :
    M.Run ok' s t := by
  induction h with
  | refl => exact .refl
  | step _ hok hs ih => exact ih.step (himp hok) hs

theorem Reachable.mono (himp : ∀ {x : σ} {a : α}, ok x a → ok' x a) (h : M.Reachable ok t) :
    M.Reachable ok' t := by
  obtain ⟨s, hs, hrun⟩ := h
  exact ⟨s, hs, hrun.mono himp⟩

/-- Every step of an executed schedule was allowed. -/
def Allowed (M : Machine σ α) (ok : σ → α → Prop) (s : σ) : List α → Prop
  | [] => True
  | a :: rest => ok s a ∧ ∀ t, M.step s a = some t → Allowed M ok t rest

instance decidableAllowed (M : Machine σ α) (ok : σ → α → Prop) [∀ s a, Decidable (ok s a)] :
    (s : σ) → (acts : List α) → Decidable (Allowed M ok s acts)
  | _, [] => .isTrue trivial
  | s, a :: rest =>
    have := fun t => decidableAllowed M ok t rest
    inferInstanceAs (Decidable (ok s a ∧ ∀ t ∈ M.step s a, Allowed M ok t rest))

theorem allowed_true (s acts) : Allowed M (fun _ _ => True) s acts := by
  induction acts generalizing s with
  | nil => trivial
  | cons a rest ih => exact ⟨trivial, fun t _ => ih t⟩

/-- An executed schedule is a run. -/
theorem run_of_exec {acts : List α} (hal : Allowed M ok s acts) (h : M.exec s acts = some t) :
    M.Run ok s t := by
  induction acts generalizing s with
  | nil =>
    cases h
    exact .refl
  | cons a rest ih =>
    obtain ⟨x, hx, hrest⟩ := Option.bind_eq_some_iff.mp h
    have hone : M.Run ok s x := Run.refl.step hal.1 hx
    exact hone.trans (ih (hal.2 x hx) hrest)

end Machine

section Fold

variable {ε β α : Type} {b b' : β} {e : ε} {f : β → α → Except ε β} {l : List α}

/-- An invariant of one fallible loop body is an invariant of the loop. -/
theorem foldlM_ok_invariant {P : β → Prop} (h : l.foldlM f b = .ok b') (h0 : P b)
    (hstep : ∀ {x y : β} {a : α}, a ∈ l → P x → f x a = .ok y → P y) : P b' := by
  induction l generalizing b with
  | nil =>
    cases h
    exact h0
  | cons a rest ih =>
    rw [foldlM_cons] at h
    cases hfa : f b a with
    | error e => rw [hfa] at h; cases h
    | ok c =>
      rw [hfa] at h
      exact ih h (hstep mem_cons_self h0 hfa)
        fun hm => hstep (mem_cons_of_mem _ hm)

/-- Bodies that agree on the elements of a list loop alike. -/
theorem foldlM_congr {g : β → α → Except ε β} (h : ∀ x, ∀ a ∈ l, f x a = g x a) :
    l.foldlM f b = l.foldlM g b := by
  induction l generalizing b with
  | nil => rfl
  | cons a rest ih =>
    rw [foldlM_cons, foldlM_cons, h b a mem_cons_self]
    cases g b a with
    | error e => rfl
    | ok c => exact ih fun x y hy => h x y (mem_cons_of_mem a hy)

/-- What the body establishes about its element, and no body undoes, holds of
every element after the loop. -/
theorem foldlM_ok_forall {Q : α → β → Prop} (h : l.foldlM f b = .ok b')
    (hself : ∀ {x y : β} {a : α}, f x a = .ok y → Q a y)
    (hkeep : ∀ {x y : β} {a c : α}, f x a = .ok y → Q c x → Q c y) : ∀ a ∈ l, Q a b' := by
  induction l generalizing b with
  | nil => exact fun a ha => absurd ha not_mem_nil
  | cons a rest ih =>
    rw [foldlM_cons] at h
    cases hfa : f b a with
    | error e => rw [hfa] at h; cases h
    | ok c =>
      rw [hfa] at h
      intro x hx
      rcases mem_cons.mp hx with rfl | hx
      · exact foldlM_ok_invariant h (hself hfa) fun _ => fun hq hf => hkeep hf hq
      · exact ih h x hx

/-- A successful loop over `a :: rest` ran its body on `a` first. -/
theorem foldlM_cons_ok {a : α} {rest : List α} (h : (a :: rest).foldlM f b = .ok b') :
    ∃ c, f b a = .ok c ∧ rest.foldlM f c = .ok b' := by
  rw [foldlM_cons] at h
  cases hfa : f b a with
  | error e => rw [hfa] at h; cases h
  | ok c => exact ⟨c, rfl, by rwa [hfa] at h⟩

/-- A loop fails with an error of its body. -/
theorem foldlM_error {Q : ε → Prop} (h : l.foldlM f b = .error e)
    (hstep : ∀ {x : β} {a : α} {e : ε}, f x a = .error e → Q e) :
    Q e := by
  induction l generalizing b with
  | nil => cases h
  | cons a rest ih =>
    rw [foldlM_cons] at h
    cases hfa : f b a with
    | error d =>
      rw [hfa] at h
      cases h
      exact hstep hfa
    | ok c =>
      rw [hfa] at h
      exact ih h

/-- A computation followed by another one fails in one of them. -/
theorem bind_error {γ δ : Type} {x : Except ε γ} {f : γ → Except ε δ} (h : (x >>= f) = .error e) :
    x = .error e ∨ ∃ a, x = .ok a ∧ f a = .error e := by
  cases x with
  | error d =>
    cases h
    exact .inl rfl
  | ok a => exact .inr ⟨a, rfl, h⟩

theorem ok_bind {γ δ : Type} (a : γ) (f : γ → Except ε δ) : (Except.ok a >>= f) = f a := rfl

/-- A successful computation followed by another one, taken apart. -/
theorem bind_ok {γ δ : Type} {x : Except ε γ} {f : γ → Except ε δ} {r : δ} (h : (x >>= f) = .ok r) :
    ∃ a, x = .ok a ∧ f a = .ok r := by
  cases x with
  | error e => cases h
  | ok a => exact ⟨a, rfl, h⟩

theorem map_ok {γ δ : Type} {x : Except ε γ} {f} {r : δ} (h : x.map f = .ok r) :
    ∃ a, x = .ok a ∧ f a = r := by
  cases x with
  | error e => cases h
  | ok a => exact ⟨a, rfl, Except.ok.inj h⟩

theorem map_error {γ δ : Type} {x : Except ε γ} {f : γ → δ} (h : x.map f = .error e) :
    x = .error e := by
  cases x with
  | error d => exact congrArg Except.error (Except.error.inj h)
  | ok a => cases h

theorem toOption_eq_some {δ : Type} {x : Except ε δ} {r : δ} : x.toOption = some r ↔ x = .ok r := by
  cases x <;> simp [Except.toOption]

/-- What a successful pass over a list produced. -/
theorem mem_of_mapM_ok {γ : Type} {f : α → Except ε γ} {out : List γ} (h : l.mapM f = .ok out)
    {b : γ} :
    b ∈ out ↔ ∃ a ∈ l, f a = .ok b := by
  induction l generalizing out with
  | nil =>
    cases h
    simp
  | cons a rest ih =>
    rw [mapM_cons] at h
    obtain ⟨c, hc, h⟩ := bind_ok h
    obtain ⟨cs, hcs, h⟩ := bind_ok h
    cases h
    rw [mem_cons, ih hcs]
    simp [hc, eq_comm]

/-- A pass that keeps a key keeps the list of keys. -/
theorem map_of_mapM_ok {γ κ : Type} {f : α → Except ε γ} {key : α → κ} {key' : γ → κ}
    (hf : ∀ a b, f a = .ok b → key' b = key a) {out : List γ} (h : l.mapM f = .ok out) :
    out.map key' = l.map key := by
  induction l generalizing out with
  | nil =>
    cases h
    rfl
  | cons a rest ih =>
    rw [mapM_cons] at h
    obtain ⟨c, hc, h⟩ := bind_ok h
    obtain ⟨cs, hcs, h⟩ := bind_ok h
    cases h
    rw [map_cons, map_cons, ih hcs, hf a c hc]

/-- A pass over a list succeeds exactly when it does on every element. -/
theorem mapM_isOk {γ : Type} {f : α → Except ε γ} :
    (∃ out, l.mapM f = .ok out) ↔ ∀ a ∈ l, ∃ b, f a = .ok b := by
  induction l with
  | nil => exact ⟨fun _ a ha => absurd ha not_mem_nil, fun _ => ⟨[], rfl⟩⟩
  | cons a rest ih =>
    rw [forall_mem_cons, ← ih]
    constructor
    · rintro ⟨out, h⟩
      rw [mapM_cons] at h
      obtain ⟨c, hc, h⟩ := bind_ok h
      obtain ⟨cs, hcs, -⟩ := bind_ok h
      exact ⟨⟨c, hc⟩, ⟨cs, hcs⟩⟩
    · rintro ⟨⟨c, hc⟩, ⟨cs, hcs⟩⟩
      exact ⟨c :: cs, by rw [mapM_cons, hc, hcs]; rfl⟩

/-- A guard that refuses. -/
@[simp] theorem ite_error_eq_ok {δ : Type} {c : Prop} [Decidable c] {x : Except ε δ} {r : δ} :
    (if c then .error e else x) = .ok r ↔ ¬ c ∧ x = .ok r := by
  by_cases hc : c
  · simp [hc]
  · simp [hc]

end Fold

end SentinelPass.Lib
