import CrateAudit.Bom.Document
import CrateAudit.Proofs.Bytes.Decimal
import CrateAudit.Proofs.Bytes.Lines

/-!
# Names and versions in the names of directories

Crates have semantic versions (`Version`), and a crate's directory is called by its name and its version with a dash
between them (`directory`). If no part of the name starts with a digit, the first dash in front of a digit tells where
the version starts, so there is one name and one version to a directory (`directory_inj`).

Versions may have dashes, too: in front of the pre-release part and inside of identifiers. The name of a directory is
split at the last dash (`split_append_cons`), so the name and the version are found exactly if the version has none
(`split_directory_iff`). Otherwise the version is lost, or its front part goes to the name.
-/

namespace CrateAudit.Crate

open Bytes

/-! ### Versions -/

/-- A byte of an identifier: a letter, a digit or a dash. -/
def isIdentifier (b : UInt8) : Bool := isLetter b || isDigit b || b = 0x2d

/-- An identifier in a version. -/
structure Identifier where
  text : Bytes
  text_ne_nil : text ≠ []
  all_text : text.all isIdentifier = true

/-- An identifier in the pre-release part of a version, where numbers have no leading zeros. -/
structure Tag extends Identifier where
  eq_zero : text.all isDigit = true → text.head? = some 0x30 → text = [0x30]

/-- A **semantic version**: three numbers, a pre-release part and a build part. A part without identifiers is left
out. -/
structure Version where
  major : ℕ
  minor : ℕ
  patch : ℕ
  preRelease : List Tag := []
  build : List Identifier := []

/-- A part of a version, with its sign in front and dots between its identifiers. -/
def part (sign : UInt8) (identifiers : List Identifier) : Bytes :=
  if identifiers.isEmpty then [] else sign :: [0x2e].intercalate (identifiers.map (·.text))

/-- The text of a version. -/
def Version.text (v : Version) : Bytes :=
  decimal v.major ++ lit "." ++ decimal v.minor ++ lit "." ++ decimal v.patch ++
    part 0x2d (v.preRelease.map (·.toIdentifier)) ++ part 0x2b v.build

/-- A version without dashes. -/
def Version.Dashless (v : Version) : Prop := v.preRelease = [] ∧ ∀ i ∈ v.build, 0x2d ∉ i.text

theorem mem_part_self_iff {sign : UInt8} {identifiers : List Identifier} :
    sign ∈ part sign identifiers ↔ identifiers ≠ [] := by
  cases identifiers <;> simp [part]

theorem mem_part_iff {b sign : UInt8} {identifiers : List Identifier} (hsign : b ≠ sign) (hdot : b ≠ 0x2e) :
    b ∈ part sign identifiers ↔ ∃ i ∈ identifiers, b ∈ i.text := by
  cases identifiers with
  | nil => simp [part]
  | cons first rest =>
    have hjoined := intercalate_append_cons 0x2e [] first.text (rest.map (·.text))
    simp only [List.nil_append, List.flatMap_nil] at hjoined
    simp [part, hjoined, hsign, hdot]

namespace Version

variable (v : Version)

theorem dashless_iff : v.Dashless ↔ 0x2d ∉ v.text := by
  have hdecimal (n : ℕ) : 0x2d ∉ decimal n := not_mem_decimal (by decide) n
  have hdot : 0x2d ∉ lit "." := by decide
  have hbuild : 0x2d ∈ part 0x2b v.build ↔ ∃ i ∈ v.build, 0x2d ∈ i.text := mem_part_iff (by decide) (by decide)
  simp [Dashless, text, mem_part_self_iff, hbuild, hdecimal, hdot]

theorem isDigit_head_text : (v.text.head?).any isDigit = true := by
  obtain ⟨b, digits, hdecimal⟩ := List.exists_cons_of_ne_nil (decimal_ne_nil v.major)
  have hall := all_isDigit_decimal v.major
  rw [hdecimal, List.all_cons, Bool.and_eq_true] at hall
  simp [text, hdecimal, hall.1]

end Version

/-! ### Directories -/

/-- A name of a crate: it is not empty, and none of its parts between dashes starts with a digit, as a version does. -/
structure IsName (name : Bytes) : Prop where
  ne_nil : name ≠ []
  head_piece : ∀ piece ∈ pieces 0x2d name, (piece.head?).any isDigit = false

/-- The name of a crate's directory. -/
def directory (name : Bytes) (v : Version) : Bytes := name ++ 0x2d :: v.text

variable {name name' text text' front back : Bytes} {v v' : Version}

/-- No dash of a name stands in front of a digit. -/
theorem IsName.head_back (h : IsName (front ++ 0x2d :: back)) : (back.head?).any isDigit = false := by
  cases back with
  | nil => rfl
  | cons b back =>
    by_cases hdash : b = 0x2d
    · rw [hdash]
      rfl
    · -- a part of the name starts behind the dash
      have hpiece : ∃ piece ∈ pieces 0x2d (front ++ 0x2d :: b :: back), piece.head? = some b := by
        rw [pieces_append_cons, pieces_cons, if_neg hdash]
        exact ⟨_, List.mem_append_right _ List.mem_cons_self, rfl⟩
      obtain ⟨piece, hmem, hhead⟩ := hpiece
      have hdigit := h.head_piece piece hmem
      rwa [hhead] at hdigit

/-- A dash in front of a digit is behind a name, not inside of it. -/
theorem IsName.eq_nil_of_append (h : IsName (front ++ back)) (hdigit : (text.head?).any isDigit = true)
    (heq : 0x2d :: text = back ++ 0x2d :: text') : back = [] := by
  cases back with
  | nil => rfl
  | cons b back =>
    obtain ⟨rfl, rfl⟩ := List.cons.inj heq
    have hback := h.head_back
    -- what starts the text is the second dash, or the byte behind the dash of the name
    cases back with
    | nil => exact absurd hdigit (by simp [isDigit])
    | cons d back => exact absurd (hback.symm.trans hdigit) Bool.false_ne_true

/-- **The name of a directory** tells the name of the crate and its version. -/
theorem directory_inj (h : IsName name) (h' : IsName name') :
    directory name v = directory name' v' ↔ name = name' ∧ v.text = v'.text := by
  constructor
  · intro heq
    obtain ⟨rest, rfl, hrest⟩ | ⟨rest, rfl, hrest⟩ := List.append_eq_append_iff.mp heq
    · obtain rfl := h'.eq_nil_of_append v.isDigit_head_text hrest
      exact ⟨(List.append_nil _).symm, (List.cons.inj hrest).2⟩
    · obtain rfl := h.eq_nil_of_append v'.isDigit_head_text hrest
      exact ⟨List.append_nil _, (List.cons.inj hrest).2.symm⟩
  · rintro ⟨rfl, htext⟩
    rw [directory, directory, htext]

/-! ### Splitting -/

/-- The name of a directory is split at the last dash, if a digit follows and something stands in front of it. -/
theorem split_append_cons (hback : 0x2d ∉ back) (hfront : front ≠ []) :
    split (front ++ 0x2d :: back) =
      if (back.head?).any isDigit then (front, back) else (front ++ 0x2d :: back, []) := by
  simp [split, splitLast?_append_cons hback, hfront]

theorem split_directory_of_dashless (hname : name ≠ []) (hv : v.Dashless) :
    split (directory name v) = (name, v.text) := by
  rw [directory, split_append_cons (v.dashless_iff.mp hv) hname, if_pos v.isDigit_head_text]

/-- The last dash of a version takes the place of the one behind the name. -/
theorem split_directory_of_eq (htext : v.text = front ++ 0x2d :: back) (hback : 0x2d ∉ back) :
    split (directory name v) =
      if (back.head?).any isDigit then (name ++ 0x2d :: front, back) else (directory name v, []) := by
  have hdirectory : directory name v = (name ++ 0x2d :: front) ++ 0x2d :: back := by
    rw [directory, htext, List.append_assoc, List.cons_append]
  rw [hdirectory, split_append_cons hback (by simp)]

/-- A version with a dash has a last one. -/
theorem exists_last_dash (hv : ¬v.Dashless) : ∃ front back, v.text = front ++ 0x2d :: back ∧ 0x2d ∉ back := by
  have hmem : 0x2d ∈ v.text := not_not.mp (mt v.dashless_iff.mpr hv)
  obtain ⟨back, front, heq, hback⟩ := List.eq_append_cons_of_mem (List.mem_reverse.mpr hmem)
  refine ⟨front.reverse, back.reverse, ?_, by simpa using hback⟩
  simpa using congrArg List.reverse heq

theorem fst_split_directory_iff (hname : name ≠ []) : (split (directory name v)).1 = name ↔ v.Dashless := by
  refine ⟨?_, fun hv => congrArg Prod.fst (split_directory_of_dashless hname hv)⟩
  contrapose
  intro hv
  obtain ⟨front, back, htext, hback⟩ := exists_last_dash hv
  rw [split_directory_of_eq htext hback]
  split <;> simp [directory]

theorem snd_split_directory_iff (hname : name ≠ []) : (split (directory name v)).2 = v.text ↔ v.Dashless := by
  refine ⟨?_, fun hv => congrArg Prod.snd (split_directory_of_dashless hname hv)⟩
  contrapose
  intro hv
  obtain ⟨front, back, htext, hback⟩ := exists_last_dash hv
  rw [split_directory_of_eq htext hback, htext]
  split
  · -- there is no dash in what is taken for the version
    intro (heq : back = front ++ 0x2d :: back)
    rw [heq] at hback
    exact hback (List.mem_append_right front List.mem_cons_self)
  · simp

/-! ### Components -/

/-- The package URL of a version of a crate. -/
def packageUrl (name version : Bytes) : Bytes := lit "pkg:cargo/" ++ name ++ lit "@" ++ version

theorem url_ofResult (r : Result) :
    (Component.ofResult r).url =
      if (split r.id).2.isEmpty then [] else packageUrl (split r.id).1 (split r.id).2 := rfl

theorem url_ofResult_iff {r : Result} (hid : r.id = directory name v) (hname : name ≠ []) :
    (Component.ofResult r).url = packageUrl name v.text ↔ v.Dashless := by
  rw [url_ofResult, hid]
  constructor
  · contrapose
    intro hv
    obtain ⟨front, back, htext, hback⟩ := exists_last_dash hv
    have hat : lit "@" = [0x40] := by decide
    -- behind the name there is a dash in the one URL, and an at sign in the other
    rw [split_directory_of_eq htext hback]
    split_ifs <;> simp [packageUrl, hat, directory]
  · intro hv
    have hdigit := v.isDigit_head_text
    rw [split_directory_of_dashless hname hv, if_neg]
    intro (hempty : v.text.isEmpty = true)
    rw [List.isEmpty_iff.mp hempty] at hdigit
    exact Bool.false_ne_true hdigit

/-- **Names and versions of crates**. The name of a directory tells one name and one version. They are found exactly if
the version has no dash, that is, neither a pre-release part nor a dash in the build part, and only then does the
component of the crate have its name, its version and its package URL. With other versions the last dash counts: what
is in front of it goes to the name if a digit follows, and else there is no version at all. -/
theorem split_directory_iff (hname : IsName name) (v : Version) :
    (split (directory name v) = (name, v.text) ↔ v.Dashless) ∧
      (∀ r : Result, r.id = directory name v →
        ((Component.ofResult r).name = name ↔ v.Dashless) ∧
        ((Component.ofResult r).version = v.text ↔ v.Dashless) ∧
        ((Component.ofResult r).url = packageUrl name v.text ↔ v.Dashless)) ∧
      (∀ front back, v.text = front ++ 0x2d :: back → 0x2d ∉ back →
        split (directory name v) =
          if (back.head?).any isDigit then (name ++ 0x2d :: front, back) else (directory name v, [])) ∧
      ∀ name' v', IsName name' → (directory name v = directory name' v' ↔ name = name' ∧ v.text = v'.text) := by
  have hfst : (split (directory name v)).1 = name ↔ v.Dashless := fst_split_directory_iff hname.ne_nil
  have hsnd : (split (directory name v)).2 = v.text ↔ v.Dashless := snd_split_directory_iff hname.ne_nil
  refine ⟨?_, ?_, fun front back => split_directory_of_eq, fun name' v' => directory_inj hname⟩
  · rw [Prod.ext_iff, hfst, hsnd, and_self]
  · intro r hid
    refine ⟨?_, ?_, url_ofResult_iff hid hname.ne_nil⟩
    · rw [← hfst, ← hid]
      rfl
    · rw [← hsnd, ← hid]
      rfl

/-- A version whose build part is the version of the library that the crate builds. -/
def bundled : Version :=
  { major := 300, minor := 0, patch := 4
    build := [⟨lit "3", by decide, by decide⟩, ⟨lit "0", by decide, by decide⟩, ⟨lit "4", by decide, by decide⟩] }

theorem split_directory_bundled :
    IsName (lit "openssl-src") ∧ directory (lit "openssl-src") bundled = lit "openssl-src-300.0.4+3.0.4" ∧
      split (directory (lit "openssl-src") bundled) = (lit "openssl-src", bundled.text) ∧
      (Component.ofResult { id := directory (lit "openssl-src") bundled }).url =
        packageUrl (lit "openssl-src") bundled.text := by
  have hname : IsName (lit "openssl-src") := ⟨by decide, by decide⟩
  have hbuild : bundled.build.all (!·.text.contains 0x2d) = true := by decide
  have hdashless : bundled.Dashless := ⟨rfl, by simpa using hbuild⟩
  obtain ⟨hsplit, hcomponent, -⟩ := split_directory_iff hname bundled
  exact ⟨hname, by decide, hsplit.mpr hdashless, (hcomponent _ rfl).2.2.mpr hdashless⟩

/-- A version of a crate before its release. -/
def alpha : Version :=
  { major := 0, minor := 3, patch := 0
    preRelease := [⟨⟨lit "alpha", by decide, by decide⟩, by decide⟩, ⟨⟨lit "19", by decide, by decide⟩, by decide⟩] }

/-- A version whose build part names the library that the crate builds. -/
def labelled : Version :=
  { major := 0, minor := 4, patch := 59
    build := [⟨lit "curl-7", by decide, by decide⟩, ⟨lit "86", by decide, by decide⟩, ⟨lit "0", by decide, by decide⟩] }

/-- The version is lost in the one directory, and its front part goes to the name in the other. -/
theorem split_directory_dashes :
    IsName (lit "futures-preview") ∧ alpha.text = lit "0.3.0-alpha.19" ∧
      split (directory (lit "futures-preview") alpha) = (lit "futures-preview-0.3.0-alpha.19", []) ∧
      split (directory (lit "futures-preview") alpha) ≠ (lit "futures-preview", alpha.text) ∧
      (Component.ofResult { id := directory (lit "futures-preview") alpha }).url = [] ∧
      IsName (lit "curl-sys") ∧ labelled.text = lit "0.4.59+curl-7.86.0" ∧
      split (directory (lit "curl-sys") labelled) = (lit "curl-sys-0.4.59+curl", lit "7.86.0") ∧
      split (directory (lit "curl-sys") labelled) ≠ (lit "curl-sys", labelled.text) ∧
      (Component.ofResult { id := directory (lit "curl-sys") labelled }).url =
        lit "pkg:cargo/curl-sys-0.4.59+curl@7.86.0" := by
  refine ⟨⟨by decide, by decide⟩, ?_, ?_, ?_, ?_, ⟨by decide, by decide⟩, ?_, ?_, ?_, ?_⟩ <;> decide

end CrateAudit.Crate
