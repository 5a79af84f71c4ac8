import CrateAudit.Log.Derivation
import CrateAudit.Proofs.Log.Line
import Mathlib.Data.List.Induction

/-!
# Derived loggers and contexts keep to themselves

What has been derived can be told from the derivations (`Lineage`): every logger by its groups and attributes, and every
context by its attributes, the outermost context first. Deriving a context never writes into an array that is in use
(`Memory.derive_spec`), whatever the arrays have to spare. So a registry follows its lineage (`Registry.follows_after`),
and what is written by a logger in a context is told by their own derivations alone (`Registry.line_after`).
-/

namespace CrateAudit.Log

open Bytes

/-- What is in a list stays where it is when the list grows. -/
theorem getElem?_of_grown {α : Type} {l l' : List α} (h : l <+: l') {i : ℕ} {a : α} (ha : l[i]? = some a) :
    l'[i]? = some a := by
  obtain ⟨hi, rfl⟩ := List.getElem?_eq_some_iff.mp ha
  exact List.prefix_iff_getElem?.mp h i hi

/-! ### Memory -/

namespace Memory

variable {m m' : Memory} {s : Slice}

/-- A slice is a part of an array that has been allocated. -/
def Holds (m : Memory) (s : Slice) : Prop := ∃ cells, m.arrays[s.array]? = some cells ∧ s.length ≤ cells.length

/-- All arrays stay as they are; there may be new ones. -/
def Extends (m m' : Memory) : Prop := m.arrays <+: m'.arrays

theorem Extends.holds (h : m.Extends m') (hs : m.Holds s) : m'.Holds s := by
  obtain ⟨cells, hcells, hlength⟩ := hs
  exact ⟨cells, getElem?_of_grown h hcells, hlength⟩

/-- Slices that are in use read the same. -/
theorem Extends.read_eq (h : m.Extends m') (hs : m.Holds s) : m'.read s = m.read s := by
  obtain ⟨cells, hcells, -⟩ := hs
  rw [read, getElem?_of_grown h hcells, read, hcells]

/-- A new array holds what it was made for. -/
theorem allocate_spec (m : Memory) (attrs : List Attr) (spare : ℕ) :
    m.Extends (m.allocate attrs spare).2 ∧ (m.allocate attrs spare).2.Holds (m.allocate attrs spare).1 ∧
      (m.allocate attrs spare).2.read (m.allocate attrs spare).1 = attrs := by
  have hlast : (m.arrays ++ [attrs ++ List.replicate spare blank])[m.arrays.length]? =
      some (attrs ++ List.replicate spare blank) := List.getElem?_concat_length
  refine ⟨List.prefix_append _ _, ⟨_, hlast, ?_⟩, ?_⟩
  · simp [allocate]
  · show (((m.arrays ++ [attrs ++ List.replicate spare blank])[m.arrays.length]?).getD []).take attrs.length = attrs
    rw [hlast, Option.getD_some, List.take_left]

/-- Writing no attributes changes nothing. -/
theorem write_nil (m : Memory) (s : Slice) : m.write s [] = m := by
  have hid : (fun cells : List Attr =>
      cells.take s.length ++ [] ++ cells.drop (s.length + ([] : List Attr).length)) = id := by
    funext cells
    simp
  rw [write, hid, List.modify_id]

/-- **Appending to a clipped slice** changes no array: unless there is nothing to append, there is no room for it. -/
theorem append_clip_spec (hs : m.Holds s) (attrs : List Attr) :
    m.Extends (m.append s.clip attrs).2 ∧ (m.append s.clip attrs).2.Holds (m.append s.clip attrs).1 ∧
      (m.append s.clip attrs).2.read (m.append s.clip attrs).1 = m.read s ++ attrs := by
  cases attrs with
  | nil =>
    have happend : m.append s.clip [] = (s.clip, m) := by
      rw [append, write_nil]
      exact if_pos le_rfl
    rw [happend, List.append_nil]
    exact ⟨List.prefix_rfl, hs, rfl⟩
  | cons a attrs =>
    have hfull : ¬s.clip.length + (a :: attrs).length ≤ s.clip.capacity := by
      simp [Slice.clip]
    rw [append, if_neg hfull]
    exact allocate_spec m (m.read s ++ a :: attrs) _

/-- **Deriving a context** leaves all others alone and gives one with the attributes of its parent and the new ones. -/
theorem derive_spec (parent? : Option Slice) (hparent : ∀ s ∈ parent?, m.Holds s) (attrs : List Attr) :
    m.Extends (m.derive parent? attrs).2 ∧ (m.derive parent? attrs).2.Holds (m.derive parent? attrs).1 ∧
      (m.derive parent? attrs).2.read (m.derive parent? attrs).1 = (parent?.map m.read).getD [] ++ attrs := by
  cases parent? with
  | some s => exact append_clip_spec (hparent s rfl) attrs
  | none =>
    obtain ⟨hextends, hholds, hread⟩ := allocate_spec m [] attrs.length
    obtain ⟨hextends', hholds', hread'⟩ := append_clip_spec hholds attrs
    rw [hread] at hread'
    exact ⟨hextends.trans hextends', hholds', hread'⟩

end Memory

/-! ### Lineages -/

/-- The derivations that lead to each logger, and the attributes that were added to get to each context, the first ones
first. -/
structure Lineage where
  loggers : List (List Layer) := [[]]
  contexts : List (List (List Attr)) := [[]]

namespace Lineage

/-- The lineage with one more derivation. -/
def derive (l : Lineage) : Derivation → Lineage
  | .context parent attrs => { l with contexts := l.contexts ++ [(l.contexts[parent]?).getD [] ++ [attrs]] }
  | .logger parent layer => { l with loggers := l.loggers ++ [(l.loggers[parent]?).getD [] ++ [layer]] }

/-- The lineage of some derivations. -/
def of (steps : List Derivation) : Lineage := steps.foldl derive {}

theorem of_concat (steps : List Derivation) (step : Derivation) : of (steps ++ [step]) = (of steps).derive step := by
  rw [of, List.foldl_concat, of]

/-- What has been derived stays. -/
theorem prefixes_of_append (steps later : List Derivation) :
    (of steps).loggers <+: (of (steps ++ later)).loggers ∧ (of steps).contexts <+: (of (steps ++ later)).contexts := by
  induction later using List.reverseRecOn with
  | nil =>
    rw [List.append_nil]
    exact ⟨List.prefix_rfl, List.prefix_rfl⟩
  | append_singleton later step ih =>
    rw [← List.append_assoc, of_concat]
    cases step with
    | context parent attrs => exact ⟨ih.1, ih.2.trans (List.prefix_append _ _)⟩
    | logger parent layer => exact ⟨ih.1.trans (List.prefix_append _ _), ih.2⟩

end Lineage

namespace Registry

/-! ### Registries follow their lineage -/

/-- A registry holds the loggers and contexts of a lineage. -/
structure Follows (r : Registry) (verbose : Bool) (l : Lineage) : Prop where
  verbose_eq : r.verbose = verbose
  loggers_eq : r.loggers = l.loggers.map fun layers => { verbose, layers }
  contexts_eq : r.contexts.map (fun s? => (s?.map r.memory.read).getD []) = l.contexts.map List.flatten
  holds : ∀ s, some s ∈ r.contexts → r.memory.Holds s

variable {r : Registry} {verbose : Bool} {l : Lineage}

theorem follows_start (verbose : Bool) (spare : ℕ → ℕ) : (start verbose spare).Follows verbose {} :=
  ⟨rfl, rfl, rfl, by simp [start]⟩

namespace Follows

theorem logger_eq (h : r.Follows verbose l) (i : ℕ) : r.logger i = { verbose, layers := (l.loggers[i]?).getD [] } := by
  rw [logger, h.loggers_eq, List.getElem?_map, h.verbose_eq]
  cases l.loggers[i]? <;> rfl

theorem context_eq (h : r.Follows verbose l) (i : ℕ) : r.context i = ⟨((l.contexts[i]?).getD []).flatten⟩ := by
  have hattrs := congrArg (fun attrs => (attrs[i]?).getD []) h.contexts_eq
  simp only [List.getElem?_map] at hattrs
  have hcontext : (r.context i).attrs = ((r.contexts[i]?).map fun s? => (s?.map r.memory.read).getD []).getD [] := by
    rw [context]
    cases r.contexts[i]? <;> rfl
  have hchain : ((l.contexts[i]?).getD []).flatten = ((l.contexts[i]?).map List.flatten).getD [] := by
    cases l.contexts[i]? <;> rfl
  rw [hchain, ← hattrs, ← hcontext]

/-- **Every derivation** is followed. -/
theorem derive (h : r.Follows verbose l) (d : Derivation) : (r.derive d).Follows verbose (l.derive d) := by
  cases d with
  | context parent attrs =>
    have hparent : ∀ s ∈ (r.contexts[parent]?).join, r.memory.Holds s := by
      intro s hs
      exact h.holds s (List.mem_of_getElem? (Option.join_eq_some_iff.mp hs))
    -- the new slice is in a memory that extends the old one, so older slices read as before
    obtain ⟨hextends, hholds, hread⟩ := Memory.derive_spec _ hparent attrs
    have hnew : (((r.contexts[parent]?).join).map r.memory.read).getD [] = ((l.contexts[parent]?).getD []).flatten :=
      congrArg Context.attrs (h.context_eq parent)
    refine ⟨h.verbose_eq, h.loggers_eq, ?_, ?_⟩
    · have hold : r.contexts.map (fun s? => (s?.map (r.derive (.context parent attrs)).memory.read).getD []) =
          l.contexts.map List.flatten := by
        rw [← h.contexts_eq]
        refine List.map_congr_left fun s? hs => ?_
        cases s? with
        | none => rfl
        | some s => exact hextends.read_eq (h.holds s hs)
      have hcontexts : (r.derive (.context parent attrs)).contexts =
          r.contexts ++ [some (r.memory.derive (r.contexts[parent]?).join attrs).1] := rfl
      rw [hcontexts, Lineage.derive, List.map_append, List.map_append, hold, List.map_singleton, List.map_singleton,
        List.flatten_append, List.flatten_singleton, ← hnew]
      exact congrArg (fun attrs => _ ++ [attrs]) hread
    · intro s hs
      obtain hs | hs := List.mem_append.mp hs
      · exact hextends.holds (h.holds s hs)
      · rw [Option.some.inj (List.mem_singleton.mp hs)]
        exact hholds
  | logger parent layer =>
    have hlogger : (r.derive (.logger parent layer)).loggers =
        r.loggers ++ [{ verbose, layers := (l.loggers[parent]?).getD [] ++ [layer] }] := by
      cases layer <;> simp only [Registry.derive, h.logger_eq, Logger.withAttrs, Logger.withGroup]
    -- a new logger leaves the contexts and the memory as they are
    have hrest : (r.derive (.logger parent layer)).verbose = r.verbose ∧
        (r.derive (.logger parent layer)).contexts = r.contexts ∧
        (r.derive (.logger parent layer)).memory = r.memory := by
      cases layer <;> exact ⟨rfl, rfl, rfl⟩
    obtain ⟨hverbose, hcontexts, hmemory⟩ := hrest
    refine ⟨hverbose.trans h.verbose_eq, ?_, ?_, ?_⟩
    · rw [hlogger, h.loggers_eq, Lineage.derive, List.map_append]
      rfl
    · rw [hcontexts, hmemory]
      exact h.contexts_eq
    · rw [hcontexts, hmemory]
      exact h.holds

end Follows

/-- The registry after some derivations. -/
def after (r : Registry) (steps : List Derivation) : Registry := steps.foldl derive r

/-- **After some derivations**, the registry follows their lineage. -/
theorem follows_after (verbose : Bool) (spare : ℕ → ℕ) (steps : List Derivation) :
    ((start verbose spare).after steps).Follows verbose (.of steps) := by
  induction steps using List.reverseRecOn with
  | nil => exact follows_start verbose spare
  | append_singleton steps step ih =>
    rw [after, List.foldl_concat, Lineage.of_concat]
    exact ih.derive step

/-- What is written is told by the derivations of the logger and of the context. -/
theorem line_of_lineage (verbose : Bool) (spare : ℕ → ℕ) {steps : List Derivation} {i j : ℕ} {layers : List Layer}
    {chain : List (List Attr)} (hi : (Lineage.of steps).loggers[i]? = some layers)
    (hj : (Lineage.of steps).contexts[j]? = some chain) (now : Bytes) (record : Record) :
    ((start verbose spare).after steps).line i j now record =
      Logger.line { verbose, layers } now ⟨chain.flatten⟩ record := by
  have hfollows := follows_after verbose spare steps
  rw [line, hfollows.logger_eq, hfollows.context_eq, hi, hj, Option.getD_some, Option.getD_some]

/-- **What is written**, by any logger in any context that has been derived. For a record below the level it is nothing.
Otherwise it is one line, a JSON object with the attributes of the logger in the groups that were open when they were
added, and with the attributes of the record and then those of the context, the outermost one first, in the innermost
group. And nothing that is derived later changes it. -/
theorem line_after (verbose : Bool) (spare : ℕ → ℕ) (steps later : List Derivation) {i j : ℕ} {layers : List Layer}
    {chain : List (List Attr)} (hi : (Lineage.of steps).loggers[i]? = some layers)
    (hj : (Lineage.of steps).contexts[j]? = some chain) (now : Bytes) (record : Record) :
    (¬record.level.IsWritten verbose → ((start verbose spare).after steps).line i j now record = []) ∧
      (record.level.IsWritten verbose → ∃ body content,
        ((start verbose spare).after steps).line i j now record = body ++ [newline] ∧ newline ∉ body ∧
        Json.read? body = some (Json.object (builtIn now record ++ content 0)).repair ∧
        Content layers (record.attrs ++ chain.flatten) content) ∧
      ((start verbose spare).after (steps ++ later)).line i j now record =
        ((start verbose spare).after steps).line i j now record := by
  obtain ⟨hloggers, hcontexts⟩ := Lineage.prefixes_of_append steps later
  rw [line_of_lineage verbose spare hi hj,
    line_of_lineage verbose spare (getElem?_of_grown hloggers hi) (getElem?_of_grown hcontexts hj)]
  obtain ⟨hbelow, hwritten⟩ := line_cases { verbose, layers } now ⟨chain.flatten⟩ record
  exact ⟨hbelow, hwritten, rfl⟩

/-- A context for a run and one for a job of it, and a logger with a group. -/
def siblings : List Derivation :=
  [.context 0 [.text "run" (lit "r1")], .context 1 [.text "job" (lit "a")], .logger 0 (.group (lit "g")),
   .logger 1 (.attrs [.text "n" (lit "1")])]

/-- A second job is given a context, although the array of the first context has a cell to spare that the context of the
first job could be using. -/
theorem line_after_siblings :
    (Lineage.of siblings).loggers[2]? = some [.group (lit "g"), .attrs [.text "n" (lit "1")]] ∧
      (Lineage.of siblings).contexts[2]? = some [[.text "run" (lit "r1")], [.text "job" (lit "a")]] ∧
      Level.info.IsWritten false ∧
      (∃ body content,
        ((start false id).after siblings).line 2 2 [] ⟨.info, lit "first", []⟩ = body ++ [newline] ∧ newline ∉ body ∧
        Json.read? body = some (Json.object (builtIn [] ⟨.info, lit "first", []⟩ ++ content 0)).repair ∧
        Content [.group (lit "g"), .attrs [.text "n" (lit "1")]]
          ([] ++ [[.text "run" (lit "r1")], [.text "job" (lit "a")]].flatten) content) ∧
      ((start false id).after (siblings ++ [.context 1 [.text "job" (lit "b")]])).line 2 2 [] ⟨.info, lit "first", []⟩ =
        ((start false id).after siblings).line 2 2 [] ⟨.info, lit "first", []⟩ := by
  have hlogger : (Lineage.of siblings).loggers[2]? = some [.group (lit "g"), .attrs [.text "n" (lit "1")]] := rfl
  have hcontext : (Lineage.of siblings).contexts[2]? = some [[.text "run" (lit "r1")], [.text "job" (lit "a")]] := rfl
  have hwritten : Level.info.IsWritten false := le_rfl
  obtain ⟨-, hline, hlater⟩ := line_after false id siblings [.context 1 [.text "job" (lit "b")]] hlogger hcontext []
    ⟨.info, lit "first", []⟩
  exact ⟨hlogger, hcontext, hwritten, hline hwritten, hlater⟩

end Registry

end CrateAudit.Log
