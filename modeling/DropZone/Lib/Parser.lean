import Mathlib.Data.Vector.Basic
import DropZone.Lib.LittleEndian

/-!
# Parsers over byte strings

A parser reads a value off the front of a byte string or fails. The rules below prove round trips
and soundness of a parser from those of its parts, in the order the parts run.

* `Reads p enc v`: on `enc` followed by anything, `p` returns `v` and leaves what followed.
* `Finishes p enc v`: on exactly `enc`, `p` returns `v` and leaves nothing. A parser that looks
  whether bytes remain (an optional last field) finishes but does not read.
* `Yields p P`: whatever `p` returns satisfies `P`.
* `Format`: an encoder, a parser, and the values that survive both.
* `Stable p`: what `p` accepts it still accepts when more bytes follow; `Stable.fails_of_prefix`: then
  it fails on every cut of an encoding that it finishes.
* `Incremental stop p`: `p` fails with `stop` only for want of bytes, and whatever else it decides it
  decides the same when more bytes follow.
-/

open LittleEndian

/-- A parser: reads a value off the front of the bytes, or fails. -/
abbrev Parser (ε α : Type) := StateT Bytes (Except ε) α

namespace Parser

variable {ε α β : Type} {p : Parser ε α} {f : α → Parser ε β} {v : α} {w : β}

/-! ## Primitives -/

/-- Reads exactly `n` bytes; `short n got` is the failure when only `got` bytes are left. -/
def exactly (short : Nat → Nat → ε) (n : Nat) : Parser ε (List.Vector UInt8 n) := fun bs =>
  if h : n ≤ bs.length then .ok (⟨bs.take n, List.length_take_of_le h⟩, bs.drop n)
  else .error (short n bs.length)

def remaining : Parser ε Nat := fun bs => .ok (bs.length, bs)

/-- Fails with `e` unless `c` holds. -/
def check (c : Prop) [Decidable c] (e : ε) : Parser ε Unit :=
  if c then pure () else throw e

/-- Runs `p` `n` times and collects the results in order. -/
def count (p : Parser ε α) : Nat → Parser ε (List α)
  | 0 => pure []
  | n + 1 => do
    let x ← p
    let xs ← count p n
    pure (x :: xs)

theorem run_pure (v : α) (bs : Bytes) : (pure v : Parser ε α).run bs = .ok (v, bs) := rfl

theorem run_throw (e : ε) (bs : Bytes) : (throw e : Parser ε α).run bs = .error e := rfl

theorem run_remaining (bs : Bytes) : (remaining : Parser ε Nat).run bs = .ok (bs.length, bs) := rfl

theorem run_bind_ok {bs mid : Bytes}
    (h : p.run bs = .ok (v, mid)) : (p >>= f).run bs = (f v).run mid := by
  rw [StateT.run_bind, h]
  rfl

theorem bind_eq_ok {r : Except ε α} {f : α → Except ε β} :
    (r >>= f) = .ok w ↔ ∃ v, r = .ok v ∧ f v = .ok w := by
  cases r <;> simp [bind, Except.bind]

/-- A sequence succeeds exactly when its first part does and the second does on what is left. -/
theorem run_bind_eq_ok {bs rest : Bytes} :
    (p >>= f).run bs = .ok (w, rest) ↔
      ∃ v mid, p.run bs = .ok (v, mid) ∧ (f v).run mid = .ok (w, rest) := by
  rw [StateT.run_bind, bind_eq_ok]
  exact Prod.exists

theorem run_check_eq_ok {c : Prop} [Decidable c] {e : ε} {bs rest : Bytes} {u : Unit} :
    (check c e).run bs = .ok (u, rest) ↔ c ∧ bs = rest := by
  by_cases h : c
  · rw [check, if_pos h, run_pure]
    simp [h]
  · rw [check, if_neg h, run_throw]
    simp [h]

theorem run_exactly_eq_ok {short : Nat → Nat → ε} {n : Nat} {bs rest : Bytes}
    {v : List.Vector UInt8 n} :
    (exactly short n).run bs = .ok (v, rest) ↔ bs = v.toList ++ rest := by
  simp only [exactly, StateT.run]
  constructor
  · intro h
    split at h
    · cases h
      exact (List.take_append_drop n bs).symm
    · cases h
  · rintro rfl
    have hn : n ≤ (v.toList ++ rest).length := by simp
    rw [dif_pos hn]
    congr 2
    · exact Subtype.ext (by simp [List.Vector.toList, v.2])
    · simp

/-! ## Round trips -/

/-- On `enc` followed by anything, `p` returns `v` and leaves what followed. -/
def Reads (p : Parser ε α) (enc : Bytes) (v : α) : Prop :=
  ∀ rest, p.run (enc ++ rest) = .ok (v, rest)

/-- On exactly `enc`, `p` returns `v` and leaves nothing. -/
def Finishes (p : Parser ε α) (enc : Bytes) (v : α) : Prop :=
  p.run enc = .ok (v, [])

theorem Reads.finishes {enc : Bytes} (h : Reads p enc v) :
    Finishes p enc v := by
  have := h []
  rwa [List.append_nil] at this

theorem Reads.pure (v : α) : Reads (pure v : Parser ε α) [] v := fun _ => rfl

theorem Reads.bind {e e' : Bytes}
    (hp : Reads p e v) (hf : Reads (f v) e' w) : Reads (p >>= f) (e ++ e') w := by
  intro rest
  rw [List.append_assoc, run_bind_ok (hp (e' ++ rest))]
  exact hf rest

theorem Reads.bind_finishes {e e' : Bytes}
    (hp : Reads p e v) (hf : Finishes (f v) e' w) : Finishes (p >>= f) (e ++ e') w := by
  unfold Finishes
  rw [run_bind_ok (hp e')]
  exact hf

theorem Reads.bind_nil {e : Bytes}
    (hp : Reads p e v) (hf : Reads (f v) [] w) : Reads (p >>= f) e w := by
  have := hp.bind hf
  rwa [List.append_nil] at this

theorem Reads.nil_bind {e : Bytes}
    (hp : Reads p [] v) (hf : Reads (f v) e w) : Reads (p >>= f) e w := hp.bind hf

theorem Reads.nil_bind_finishes {e : Bytes}
    (hp : Reads p [] v) (hf : Finishes (f v) e w) : Finishes (p >>= f) e w := hp.bind_finishes hf

/-- Two encodings that read as values, at the front of the same bytes, are the same value and leave
the same bytes. -/
theorem Reads.cancel {e e' rest rest' : Bytes} {v v' : α} (h : Reads p e v)
    (h' : Reads p e' v') (heq : e ++ rest = e' ++ rest') : v = v' ∧ rest = rest' := by
  have hr := h rest
  rw [heq, h' rest'] at hr
  cases hr
  exact ⟨rfl, rfl⟩

theorem reads_check {c : Prop} [Decidable c] {e : ε} (h : c) : Reads (check c e) [] () := by
  intro rest
  rw [List.nil_append, run_check_eq_ok]
  exact ⟨h, rfl⟩

theorem reads_exactly (short : Nat → Nat → ε) {n : Nat} (v : List.Vector UInt8 n) :
    Reads (exactly short n) v.toList v :=
  fun _ => run_exactly_eq_ok.mpr rfl

theorem reads_count {enc : α → Bytes} {xs : List α}
    (h : ∀ x ∈ xs, Reads p (enc x) x) : Reads (count p xs.length) (xs.flatMap enc) xs := by
  induction xs with
  | nil => exact Reads.pure []
  | cons x xs ih =>
    rw [List.flatMap_cons, List.length_cons]
    refine (h x (List.mem_cons_self ..)).bind ?_
    exact (ih fun y hy => h y (List.mem_cons_of_mem x hy)).bind_nil (Reads.pure _)

/-! ## Soundness -/

/-- Whatever `p` returns satisfies `P`. -/
def Yields (p : Parser ε α) (P : α → Prop) : Prop :=
  ∀ ⦃bs v rest⦄, p.run bs = .ok (v, rest) → P v

theorem Yields.mono {P Q : α → Prop} (h : Yields p P) (hPQ : ∀ v, P v → Q v) :
    Yields p Q :=
  fun _ _ _ hr => hPQ _ (h hr)

theorem Yields.pure {P : α → Prop} (h : P v) : Yields (pure v : Parser ε α) P := by
  intro bs w rest hr
  cases hr
  exact h

theorem Yields.bind {P : α → Prop} {Q : β → Prop}
    (hp : Yields p P) (hf : ∀ v, P v → Yields (f v) Q) : Yields (p >>= f) Q := by
  intro bs w rest hr
  obtain ⟨v, mid, h₁, h₂⟩ := run_bind_eq_ok.mp hr
  exact hf v (hp h₁) h₂

theorem yields_any (p : Parser ε α) : Yields p fun _ => True := fun _ _ _ _ => trivial

theorem yields_throw (e : ε) (P : α → Prop) : Yields (throw e : Parser ε α) P := by
  intro bs w rest hr
  cases hr

theorem yields_check (c : Prop) [Decidable c] (e : ε) : Yields (check c e) fun _ => c :=
  fun _ _ _ hr => (run_check_eq_ok.mp hr).1

theorem yields_count {P : α → Prop} (hp : Yields p P) (n : Nat) :
    Yields (count p n) fun xs => xs.length = n ∧ ∀ x ∈ xs, P x := by
  induction n with
  | zero => exact Yields.pure ⟨rfl, by simp⟩
  | succ n ih =>
    refine hp.bind fun x hx => ih.bind fun xs hxs => Yields.pure ⟨?_, ?_⟩
    · rw [List.length_cons, hxs.1]
    · intro y hy
      rcases List.mem_cons.mp hy with rfl | hy
      · exact hx
      · exact hxs.2 y hy

/-! ## Formats -/

/-- An encoder and a parser that belong together: the parser finishes the encoding of every value
that `Valid` names, and returns no other values. -/
structure Format (ε α : Type) where
  encode : α → Bytes
  decoder : Parser ε α
  Valid : α → Prop
  finishes : ∀ {v}, Valid v → Finishes decoder (encode v) v
  yields : Yields decoder Valid

/-! ## Cut encodings -/

/-- What `p` accepts it accepts with the same value when more bytes follow, and leaves those too. -/
def Stable (p : Parser ε α) : Prop :=
  ∀ ⦃bs v rest⦄, p.run bs = .ok (v, rest) → ∀ more, p.run (bs ++ more) = .ok (v, rest ++ more)

theorem Stable.pure (v : α) : Stable (pure v : Parser ε α) := by
  intro bs w rest h more
  cases h
  rfl

theorem Stable.bind (hp : Stable p)
    (hf : ∀ v, Stable (f v)) : Stable (p >>= f) := by
  intro bs w rest h more
  obtain ⟨v, mid, h₁, h₂⟩ := run_bind_eq_ok.mp h
  rw [run_bind_ok (hp h₁ more)]
  exact hf v h₂ more

theorem stable_throw (e : ε) : Stable (throw e : Parser ε α) := by
  intro bs v rest h
  cases h

theorem stable_check (c : Prop) [Decidable c] (e : ε) : Stable (check c e) := by
  intro bs v rest h more
  rw [run_check_eq_ok] at h ⊢
  exact ⟨h.1, by rw [h.2]⟩

/-- A check that enough bytes are left, before a parser that reads them. -/
theorem Stable.after_room (hp : Stable p) (n : Nat) (e : ε) :
    Stable (do
      let left ← remaining
      check (n ≤ left) e
      p) := by
  intro bs v rest h more
  rw [run_bind_ok (run_remaining bs)] at h
  obtain ⟨u, mid, hcheck, hrun⟩ := run_bind_eq_ok.mp h
  obtain ⟨hroom, rfl⟩ := run_check_eq_ok.mp hcheck
  have hmore : n ≤ (bs ++ more).length := by
    rw [List.length_append]
    omega
  rw [run_bind_ok (run_remaining _), run_bind_ok (run_check_eq_ok (u := ()).mpr ⟨hmore, rfl⟩)]
  exact hp hrun more

theorem stable_exactly (short : Nat → Nat → ε) (n : Nat) : Stable (exactly short n) := by
  intro bs v rest h more
  rw [run_exactly_eq_ok] at h ⊢
  rw [h, List.append_assoc]

theorem stable_count (hp : Stable p) (n : Nat) : Stable (count p n) := by
  induction n with
  | zero => exact Stable.pure []
  | succ n ih => exact hp.bind fun x => ih.bind fun xs => Stable.pure (x :: xs)

/-- A stable parser that finishes an encoding reads it whatever follows. -/
theorem Stable.reads (hp : Stable p) {enc : Bytes} (h : Finishes p enc v) :
    Reads p enc v := hp h

/-- A stable parser fails on every strict prefix of an encoding that it finishes: on success, the
bytes cut off would be left over. -/
theorem Stable.fails_of_prefix (hp : Stable p) {enc cut : Bytes}
    (h : Finishes p enc v) (hcut : cut <+: enc) (hne : cut ≠ enc) : ∃ e, p.run cut = .error e := by
  cases hr : p.run cut with
  | error e => exact ⟨e, rfl⟩
  | ok r =>
    exfalso
    obtain ⟨more, rfl⟩ := hcut
    have hmore : r.2 ++ more = [] := by
      have heq := (hp hr more).symm.trans h
      exact congrArg Prod.snd (Except.ok.inj heq)
    rw [(List.append_eq_nil_iff.mp hmore).2, List.append_nil] at hne
    exact hne rfl

/-! ## Parsing a stream as it arrives -/

/-- `p` fails with `stop` only for want of bytes; any other outcome stands when more bytes follow. -/
structure Incremental (stop : ε) (p : Parser ε α) : Prop where
  ok : ∀ {bs v rest}, p.run bs = .ok (v, rest) → ∀ more, p.run (bs ++ more) = .ok (v, rest ++ more)
  error : ∀ {bs e}, p.run bs = .error e → e ≠ stop → ∀ more, p.run (bs ++ more) = .error e

theorem Incremental.pure (stop : ε) (v : α) : Incremental stop (pure v : Parser ε α) where
  ok h := Stable.pure v h
  error h := by cases h

theorem Incremental.lift (stop : ε) (r : Except ε α) :
    Incremental stop (liftM r : Parser ε α) where
  ok h more := by
    cases r with
    | error e => cases h
    | ok v =>
      cases h
      rfl
  error h _ more := by
    cases r with
    | error e =>
      cases h
      rfl
    | ok v => cases h

theorem Incremental.bind {stop : ε} (hp : Incremental stop p)
    (hf : ∀ v, Incremental stop (f v)) : Incremental stop (p >>= f) where
  ok h := Stable.bind (fun _ _ _ => hp.ok) (fun v _ _ _ => (hf v).ok) h
  error {bs e} h hne more := by
    cases hr : p.run bs with
    | error e' =>
      rw [StateT.run_bind, hr] at h
      cases h
      rw [StateT.run_bind, hp.error hr hne more]
      rfl
    | ok r =>
      rw [run_bind_ok hr] at h
      rw [run_bind_ok (hp.ok hr more)]
      exact (hf r.1).error h hne more

theorem incremental_exactly (stop : ε) (n : Nat) :
    Incremental stop (exactly (fun _ _ => stop) n) where
  ok h := stable_exactly _ n h
  error h hne := by
    simp only [exactly, StateT.run] at h
    split at h
    · cases h
    · cases h
      exact absurd rfl hne

end Parser
