import CrateAudit.Environment
import Mathlib.Data.List.TakeWhile

/-!
# What expanding a text gives

A reference is found by measuring it: `reference` tells how many bytes behind a dollar sign belong to it.
Here its forms are spelled out (`Refers`), each with the text that it stands in and with what follows.
They are all that a dollar sign can start (`exists_refers`), and expanding replaces each of them by the
value of its variable, or drops it (`Refers.expand_dollar`).

Main results: `expand_eq_self`, for texts without a dollar sign, and `expand_eq_nil_iff`, which tells the
texts that disappear in an environment.
-/

namespace CrateAudit.Environment

open Bytes

variable {env : Environment} {text rest : Bytes} {name? : Option Bytes}

/-! ### The forms of a reference -/

/-- `Refers text name? rest` says that what stands behind a dollar sign, `text`, starts with a reference,
and that `rest` follows it. Without a name the reference is broken. -/
inductive Refers : Bytes → Option Bytes → Bytes → Prop
  | sign {b : UInt8} {rest : Bytes} (hb : isSpecialName b = true) : Refers (b :: rest) (some [b]) rest
  | word {b : UInt8} {name rest : Bytes} (hb : isSpecialName b = false)
      (hname : ∀ c ∈ b :: name, isWord c = true) (hrest : ∀ c ∈ rest.head?, isWord c = false) :
      Refers (b :: name ++ rest) (some (b :: name)) rest
  | braced {name rest : Bytes} (hne : name ≠ []) (hname : 0x7d ∉ name) :
      Refers (0x7b :: (name ++ 0x7d :: rest)) (some name) rest
  | unnamed {rest : Bytes} : Refers (0x7b :: 0x7d :: rest) none rest
  | unclosed {rest : Bytes} (hrest : 0x7d ∉ rest) : Refers (0x7b :: rest) none rest

/-- The longest name is the one that something else follows. -/
theorem takeWhile_append_of_stop {p : UInt8 → Bool} {name : Bytes} (hname : ∀ b ∈ name, p b = true)
    (hrest : ∀ b ∈ rest.head?, p b = false) : (name ++ rest).takeWhile p = name := by
  have hstop : rest.takeWhile p = [] := by
    cases rest with
    | nil => rfl
    | cons b rest => exact List.takeWhile_cons_of_neg (by simp [hrest b rfl])
  rw [List.takeWhile_append_of_pos hname, hstop, List.append_nil]

theorem braced_of_closed {name : Bytes} (hname : 0x7d ∉ name) (rest : Bytes) :
    reference.braced (name ++ 0x7d :: rest) =
      if name = [] then (2, none) else (name.length + 2, some name) := by
  have htake : (name ++ 0x7d :: rest).takeWhile (· ≠ 0x7d) = name :=
    takeWhile_append_of_stop (fun b hb => decide_eq_true fun heq => hname (heq ▸ hb)) (by simp)
  have hlength : name.length ≠ (name ++ 0x7d :: rest).length := by
    rw [List.length_append, List.length_cons]
    omega
  simp only [reference.braced, htake, if_neg hlength, List.isEmpty_iff]

theorem braced_of_not_mem (hrest : 0x7d ∉ rest) : reference.braced rest = (1, none) := by
  have htake : rest.takeWhile (· ≠ 0x7d) = rest :=
    List.takeWhile_eq_self_iff.mpr fun b hb => decide_eq_true fun heq => hrest (heq ▸ hb)
  simp only [reference.braced, htake, if_true]

/-- A special name between braces is a name like others. -/
theorem reference_brace (text : Bytes) : reference (0x7b :: text) = reference.braced text := by
  rcases text with _ | ⟨s, _ | ⟨b, rest⟩⟩
  · rfl
  · rfl
  · by_cases hb : b = 0x7d
    · subst hb
      by_cases hs : isSpecialName s = true
      · have hname : 0x7d ∉ [s] := by
          intro hmem
          rw [← List.mem_singleton.mp hmem] at hs
          exact absurd hs (by decide)
        -- the form of its own gives what the general one gives for this name
        have hbraced := braced_of_closed hname rest
        rw [if_neg (List.cons_ne_nil s [])] at hbraced
        simp only [reference, if_pos hs]
        exact hbraced.symm
      · simp only [reference, if_neg hs]
    · simp [reference, hb]

theorem reference_cons {b : UInt8} (hb : b ≠ 0x7b) (text : Bytes) :
    reference (b :: text) =
      if isSpecialName b then (1, some [b])
      else if isWord b then (((b :: text).takeWhile isWord).length, some ((b :: text).takeWhile isWord))
      else (0, none) := by
  simp only [reference]
  split
  · rfl
  · cases hword : isWord b <;> simp [hword]

/-- A reference has the name that its form tells, and ends where its form ends. -/
theorem Refers.reference_eq (h : Refers text name? rest) :
    ∃ size, reference text = (size + 1, name?) ∧ text.drop (size + 1) = rest := by
  cases h with
  | @sign b rest hb =>
    have hne : b ≠ 0x7b := by
      rintro rfl
      exact absurd hb (by decide)
    exact ⟨0, by rw [reference_cons hne, if_pos hb], rfl⟩
  | @word b name rest hb hname hrest =>
    have hword : isWord b = true := hname b List.mem_cons_self
    have hne : b ≠ 0x7b := by
      rintro rfl
      exact absurd hword (by decide)
    have htake := takeWhile_append_of_stop hname hrest
    refine ⟨name.length, ?_, List.drop_left⟩
    rw [List.cons_append] at htake ⊢
    rw [reference_cons hne, hb, if_neg Bool.false_ne_true, if_pos hword, htake, List.length_cons]
  | @braced name rest hne hname =>
    refine ⟨name.length + 1, ?_, by simp⟩
    rw [reference_brace, braced_of_closed hname, if_neg hne]
  | unnamed =>
    refine ⟨1, ?_, rfl⟩
    rw [reference_brace]
    exact braced_of_closed List.not_mem_nil rest
  | unclosed hrest => exact ⟨0, by rw [reference_brace, braced_of_not_mem hrest], rfl⟩

/-- A dollar sign that does not stand for itself starts one of the forms. -/
theorem exists_refers (h : (reference text).1 ≠ 0) : ∃ name? rest, Refers text name? rest := by
  cases text with
  | nil => exact absurd rfl h
  | cons b text =>
    by_cases hbrace : b = 0x7b
    · subst hbrace
      by_cases hclosed : 0x7d ∈ text
      · obtain ⟨name, rest, rfl, hname⟩ := List.eq_append_cons_of_mem hclosed
        by_cases hne : name = []
        · subst hne
          exact ⟨_, _, .unnamed⟩
        · exact ⟨_, _, .braced hne hname⟩
      · exact ⟨_, _, .unclosed hclosed⟩
    · rw [reference_cons hbrace] at h
      cases hb : isSpecialName b with
      | true => exact ⟨_, _, .sign hb⟩
      | false =>
        have hword : isWord b = true := by
          by_contra hword
          simp [hb, hword] at h
        have hrest : ∀ c ∈ (text.dropWhile isWord).head?, isWord c = false := by
          intro c hc
          have hstop := List.head?_dropWhile_not isWord text
          rw [Option.mem_def.mp hc] at hstop
          exact hstop
        have hname : ∀ c ∈ b :: text.takeWhile isWord, isWord c = true :=
          List.forall_mem_cons.mpr ⟨hword, fun c hc => List.mem_takeWhile_imp hc⟩
        -- the first byte is a word byte, so the name is cut off behind it
        have hrefers := Refers.word hb hname hrest
        rw [List.cons_append, List.takeWhile_append_dropWhile] at hrefers
        exact ⟨_, _, hrefers⟩

/-! ### Expanding -/

/-- What has been expanded is in front of what is still to be expanded. -/
theorem expandGo_eq (env : Environment) (skip : Nat) (bs done : Bytes) :
    expandGo env skip bs done = done.reverse ++ env.expand (bs.drop skip) := by
  induction bs generalizing skip done with
  | nil => cases skip <;> simp [expandGo, expand]
  | cons b rest ih =>
    cases skip with
    | succ skip =>
      rw [List.drop_succ_cons, ← ih]
      rfl
    | zero =>
      rw [List.drop_zero, expand]
      unfold expandGo
      split
      · split <;> simp [ih]
      · simp [ih]

theorem expand_cons_of_ne {b : UInt8} (hb : b ≠ 0x24) (rest : Bytes) :
    env.expand (b :: rest) = b :: env.expand rest := by
  simp [expand, expandGo, hb, expandGo_eq env 0 rest [b]]

/-- A dollar sign that starts no reference stays. -/
theorem expand_dollar_of_eq_zero (h : (reference rest).1 = 0) :
    env.expand (0x24 :: rest) = 0x24 :: env.expand rest := by
  obtain ⟨name?, hreference⟩ : ∃ name?, reference rest = (0, name?) := ⟨_, Prod.ext h rfl⟩
  simp [expand, expandGo, hreference, expandGo_eq env 0 rest [0x24]]

/-- A reference is replaced by the value of its variable, or dropped. -/
theorem Refers.expand_dollar (h : Refers text name? rest) (env : Environment) :
    env.expand (0x24 :: text) = name?.elim [] env.get ++ env.expand rest := by
  obtain ⟨size, hreference, hrest⟩ := h.reference_eq
  have hne : text ≠ [] := by
    rintro rfl
    exact absurd (congrArg Prod.fst hreference) (Nat.succ_ne_zero size).symm
  cases name? <;> simp [expand, expandGo, hreference, hne, expandGo_eq env (size + 1) text, hrest]

/-- A text without a dollar sign stays as it is. -/
theorem expand_eq_self {bs : Bytes} (h : 0x24 ∉ bs) (env : Environment) : env.expand bs = bs := by
  induction bs with
  | nil => rfl
  | cons b rest ih =>
    rw [List.mem_cons, not_or] at h
    rw [expand_cons_of_ne (Ne.symm h.1), ih h.2]

/-! ### Texts that disappear -/

/-- The texts of which nothing is left: a sequence of references that are broken, or whose variables are
empty or not set. -/
inductive Blank (env : Environment) : Bytes → Prop
  | nil : Blank env []
  | dollar {text rest : Bytes} {name? : Option Bytes} (h : Refers text name? rest)
      (hempty : ∀ name ∈ name?, env.get name = []) (hrest : Blank env rest) : Blank env (0x24 :: text)

theorem expand_eq_nil_iff {bs : Bytes} : env.expand bs = [] ↔ env.Blank bs := by
  constructor
  · intro h
    -- by length: what follows a reference is shorter, but no tail that the recursion would offer
    induction hn : bs.length using Nat.strongRecOn generalizing bs with
    | ind n ih =>
      subst hn
      cases bs with
      | nil => exact .nil
      | cons b text =>
        by_cases hb : b = 0x24
        · subst hb
          by_cases hself : (reference text).1 = 0
          · rw [expand_dollar_of_eq_zero hself] at h
            exact absurd h (List.cons_ne_nil _ _)
          · obtain ⟨name?, rest, hrefers⟩ := exists_refers hself
            rw [hrefers.expand_dollar, List.append_eq_nil_iff] at h
            refine .dollar hrefers ?_ (ih _ ?_ h.2 rfl)
            · rintro name rfl
              exact h.1
            · obtain ⟨size, -, rfl⟩ := hrefers.reference_eq
              rw [List.length_drop, List.length_cons]
              omega
        · rw [expand_cons_of_ne hb] at h
          exact absurd h (List.cons_ne_nil _ _)
  · intro h
    induction h with
    | nil => rfl
    | @dollar text rest name? hrefers hempty _ ih =>
      rw [hrefers.expand_dollar, ih, List.append_nil]
      cases name? with
      | none => rfl
      | some name => exact hempty name rfl

end CrateAudit.Environment
