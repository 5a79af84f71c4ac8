import CrateAudit.Proofs.Session.Deadline
import CrateAudit.Proofs.Session.KnownCrates
import CrateAudit.Proofs.Session.Schedule

/-!
# Preparing the crates of a directory

A preparation prepares the crates of a directory that are not known, one after the other, and prints the names of those
that are ready, in ascending order. It does not fail because of a crate (`Prepare.exists_run`).

Main result: `prepares_all_crates`. If the crates keep to themselves, those are ready that would be so alone, and it
does not matter how many workers there are or which crate finishes first. A link from one crate into another one is
enough to make a difference (`finished_first`).
-/

namespace CrateAudit

open Bytes FileTree

variable {s : Session} {target : Log.Target} {logger : Log.Logger}

/-! ### The output stream -/

namespace Session

/-- Logging leaves the output stream alone, unless it is the target. -/
theorem stream_logged (hs : s.logging = some (target, logger)) (htarget : target ≠ .stdout) (context : Log.Context)
    (record : Log.Record) : (s.logged context record).stream .output = s.stream .output := by
  unfold logged
  rw [hs]
  dsimp only
  split_ifs
  · rfl
  · cases target with
    | stderr => rw [stream_write, if_neg (by decide), List.append_nil]
    | stdout => exact absurd rfl htarget
    | discard => rfl
    | file path => rfl

theorem stream_loggedAll (hs : s.logging = some (target, logger)) (htarget : target ≠ .stdout)
    (context : Log.Context) (records : List Log.Record) :
    (s.loggedAll context records).logging = some (target, logger) ∧
      (s.loggedAll context records).stream .output = s.stream .output := by
  induction records generalizing s with
  | nil => exact ⟨hs, rfl⟩
  | cons record records ih =>
    obtain ⟨hlogging, hstream⟩ := ih ((s.logging_logged context record).trans hs)
    exact ⟨hlogging, hstream.trans (stream_logged hs htarget context record)⟩

end Session

namespace Course

variable (e : Evaluator) (context : Log.Context) {c : Course}

theorem stream_step (hs : c.session.logging = some (target, logger)) (htarget : target ≠ .stdout) (job : Job) :
    (c.step e context job).session.logging = some (target, logger) ∧
      (c.step e context job).session.stream .output = c.session.stream .output := by
  unfold step
  split
  · exact ⟨hs, rfl⟩
  · exact ⟨hs, rfl⟩
  · dsimp only
    obtain ⟨hlogging, hstream⟩ := Session.stream_loggedAll (s := { c.session with
      world := (c.session.world.execute (e.cleanup job) none).2 }) hs htarget (Evaluator.context context job)
      (Evaluator.cleanupRecords (c.session.world.execute (e.cleanup job) none).1)
    obtain ⟨hlogging', hstream'⟩ := Session.stream_loggedAll hlogging htarget context _
    exact ⟨hlogging', hstream'.trans hstream⟩
  · exact ⟨hs, rfl⟩

/-- Preparing crates prints nothing. -/
theorem stream_run (hs : c.session.logging = some (target, logger)) (htarget : target ≠ .stdout) (schedule : List Job) :
    (c.run e context schedule).session.logging = some (target, logger) ∧
      (c.run e context schedule).session.stream .output = c.session.stream .output := by
  induction schedule generalizing c with
  | nil => exact ⟨hs, rfl⟩
  | cons job schedule ih =>
    obtain ⟨hlogging, hstream⟩ := stream_step e context hs htarget job
    obtain ⟨hlogging', hstream'⟩ := ih hlogging
    exact ⟨hlogging', hstream'.trans hstream⟩

end Course

namespace Prepare

open Step

/-! ### All crates -/

theorem map_job_prepareJobs (e : Evaluator) (context : Log.Context) (jobs : List Job) (s : Session) :
    ((prepareJobs e context jobs).run s).1.map (·.job) = jobs := by
  induction jobs generalizing s with
  | nil => rfl
  | cons job jobs ih =>
    rw [run_prepareJobs_cons]
    exact congrArg (job :: ·) (ih _)

/-- Names are printed one on a line. -/
theorem exists_prints (ids : List Bytes) (s : Session) :
    ∃ s', (forIn ids PUnit.unit fun id _ => do
        print (id ++ [newline])
        return ForInStep.yield PUnit.unit : Step PUnit).run s = (.ok PUnit.unit, s') ∧
      s'.stream .output = s.stream .output ++ unlines ids := by
  induction ids generalizing s with
  | nil => exact ⟨s, rfl, (List.append_nil _).symm⟩
  | cons id ids ih =>
    obtain ⟨s', hrun, hstream⟩ := ih (s.write .output (.text (id ++ [newline])))
    refine ⟨s', ?_, ?_⟩
    · rw [List.forIn_cons]
      exact hrun
    · rw [hstream, Session.stream_write, if_pos rfl, List.append_assoc]
      rfl

theorem completes_inTurn (e : Evaluator) (context : Log.Context) (s : Session) {jobs : List Job} (h : jobs.Nodup) :
    Course.Completes e context s jobs (inTurn jobs) where
  only job hjob := by
    obtain ⟨other, hother, hmem⟩ := List.mem_flatMap.mp hjob
    simp only [List.mem_cons, List.not_mem_nil, or_false, or_self] at hmem
    exact hmem ▸ hother
  all := (run_inTurn e context h fun _ _ => rfl).2.2

theorem map_job_inTurn (e : Evaluator) (context : Log.Context) (s : Session) {jobs : List Job} (h : jobs.Nodup) :
    ((Course.start s).run e context (inTurn jobs)).prepared.map (·.job) = jobs := by
  rw [(run_inTurn e context h fun _ _ => rfl).2.1]
  exact map_job_prepareJobs e context jobs s

/-- The crates are prepared one after the other. -/
theorem run_preparation (e : Evaluator) (context : Log.Context) {workers : Int64} (hworkers : ¬ workers < 1)
    {jobs : List Job} {known : List Bytes} (hnodup : (Preparation.pending known jobs).Nodup) (s : Session) :
    let c := (Course.start s).run e context (inTurn (Preparation.pending known jobs))
    ExceptT.run (m := StateM Session)
        (Preparation.run (m := StateM Session) workers known jobs false (prepareJob e context)) s =
      (.ok ⟨c.prepared, false⟩, c.session) := by
  intro c
  obtain ⟨hsession, hprepared, -⟩ := run_inTurn e context hnodup (c := Course.start s) fun _ _ => rfl
  have hc : c = (Course.start s).run e context (inTurn (Preparation.pending known jobs)) := rfl
  unfold Preparation.run
  rw [if_neg hworkers, hc, hsession, hprepared]
  rfl

/-- **A preparation** does not fail once its jobs are known, and prints the names of the crates that are ready. -/
theorem exists_run (config : Config) {r : Request} (hworkers : ¬ r.workers < 1) (hseconds : ¬ r.seconds < 0)
    {jobs : List Job} {known : List Bytes} (hjobs : Job.ofDirectory s.world.tree r.dir = .ok jobs)
    (hknown : (readKnown r.known).run s = (.ok known, s)) (hnodup : (Preparation.pending known jobs).Nodup)
    (hs : s.logging = some (target, logger)) (htarget : target ≠ .stdout) :
    ∃ s', (run config r).run s = (.ok (), s') ∧
      s'.stream .output = s.stream .output ++ unlines (Course.ready ⟨config, Duration.ofSeconds r.seconds⟩
        (context s.host) s (inTurn (Preparation.pending known jobs))) := by
  let e : Evaluator := ⟨config, Duration.ofSeconds r.seconds⟩
  have hall := run_preparation e (context s.host) hworkers hnodup s
  obtain ⟨hlogging, hstream⟩ := Course.stream_run e (context s.host) (c := Course.start s) hs htarget
    (inTurn (Preparation.pending known jobs))
  dsimp only at hall
  revert hall hlogging hstream
  unfold Course.ready
  generalize (Course.start s).run e (context s.host) (inTurn (Preparation.pending known jobs)) = c
  intro hall hlogging hstream
  let record := Log.record .info "preprocess done" [.number "crates" jobs.length, .number "known" known.length,
    .number "ready" (Preparation.ready ⟨c.prepared, false⟩).length]
  -- after the last crate a record is logged, and then the names are printed
  obtain ⟨s', hprint, houtput⟩ := exists_prints (Preparation.ready ⟨c.prepared, false⟩)
    (c.session.logged (context s.host) record)
  refine ⟨s', ?_, ?_⟩
  · unfold run
    rw [if_neg hseconds, run_get_bind, run_get_bind, hjobs, run_ok_bind, run_bind, hknown]
    dsimp only
    rw [run_bind, hall]
    dsimp only
    rw [run_bind]
    have hlog : (log (context s.host) record).run c.session = (.ok (), c.session.logged (context s.host) record) := rfl
    rw [hlog]
    dsimp only
    rw [run_bind, hprint]
    rfl
  · rw [houtput, Session.stream_logged hlogging htarget, hstream]
    rfl

end Prepare

namespace Preparation

theorem mem_ready_iff (p : Preparation) {id : Bytes} :
    id ∈ p.ready ↔ ∃ x ∈ p.prepared, x.job.id = id ∧ x.ready = .ok true ∧ id ≠ [] := by
  have hready : ∀ x : Prepared, x.isReady = true ↔ x.ready = .ok true ∧ x.job.id ≠ [] := by
    intro x
    unfold Prepared.isReady
    cases x.ready with
    | ok ready => simp
    | error fault => simp
  rw [ready, (sort_perm _).mem_iff, List.mem_map]
  constructor
  · rintro ⟨x, hx, rfl⟩
    obtain ⟨hmem, hx⟩ := List.mem_filter.mp hx
    exact ⟨x, hmem, rfl, (hready x).mp hx⟩
  · rintro ⟨x, hmem, rfl, hx⟩
    exact ⟨x, List.mem_filter.mpr ⟨hmem, (hready x).mpr hx⟩, rfl⟩

theorem pairwise_ready {p : Preparation} {jobs : List Job} (h : p.prepared.map (·.job) = jobs)
    (hnodup : (jobs.map (·.id)).Nodup) : p.ready.Pairwise (· < ·) := by
  rw [← h, List.map_map] at hnodup
  exact pairwise_sort (hnodup.sublist (List.filter_sublist.map _))

theorem ready_subset {p : Preparation} {jobs : List Job} (h : p.prepared.map (·.job) = jobs) :
    p.ready ⊆ jobs.map (·.id) := by
  intro id hid
  obtain ⟨x, hx, rfl, -⟩ := p.mem_ready_iff.mp hid
  rw [← h, List.map_map]
  exact List.mem_map.mpr ⟨x, hx, rfl⟩

/-- Which crates are ready, if each has its answer. -/
theorem mem_ready_map_iff (dir : Bytes) (names : List Bytes) (answer : Job → Except Fault Bool) {name : Bytes} :
    name ∈ ready ⟨(names.map (Job.below dir)).map fun job => ⟨job, answer job⟩, false⟩ ↔
      name ∈ names ∧ answer (.below dir name) = .ok true ∧ name ≠ [] := by
  rw [mem_ready_iff]
  constructor
  · rintro ⟨x, hx, rfl, hready, hne⟩
    obtain ⟨job, hjob, rfl⟩ := List.mem_map.mp hx
    obtain ⟨name, hname, rfl⟩ := List.mem_map.mp hjob
    exact ⟨hname, hready, hne⟩
  · rintro ⟨hname, hready, hne⟩
    exact ⟨_, List.mem_map.mpr ⟨_, List.mem_map.mpr ⟨name, hname, rfl⟩, rfl⟩, rfl, hready, hne⟩

end Preparation

/-- When a session is set up, its log is ready, and nothing was launched or printed, unless the log is. -/
theorem Setup.exists_of_setUp {options : CommandLine.Options} {path : Bytes} {config : Config} {u : Session}
    (hs : s.logging = none) (h : (setUp options).run s = (.ok (path, config), u))
    (htarget : Log.Target.ofSetting config.logging.target ≠ .stdout) :
    (∃ logger, u.logging = some (Log.Target.ofSetting config.logging.target, logger)) ∧
      (Log.Target.ofSetting config.logging.target).Ready u.world.tree ∧
      u.world.launches = s.world.launches ∧ u.stream .output = s.stream .output := by
  have hquiet := quiet_setUp options s
  obtain ⟨v, hopened, rfl⟩ := opened_of_setUp hs h
  obtain ⟨hlogging, hstream⟩ := Session.stream_loggedAll hopened.logging_eq htarget {} (firstRecords path config)
  have hwears := (v.wears_loggedAll ∅ {} (firstRecords path config)).tree hopened.logging_eq
  refine ⟨⟨_, hlogging⟩, ?_, ?_, hstream.trans hopened.grows.output_eq⟩
  · exact (hwears.keeps_of_ready (Log.Target.ready_of_prepare hopened.prepared) (Log.Target.clear_empty _ _)).2
  · rw [List.append_nil] at hquiet
    exact (congrArg (·.2.world.launches) h).symm.trans hquiet

/-! ### The whole run -/

open CommandLine (Options)

/-- A preparation that has come past its arguments and its configuration, and has something to prepare: a session that
is set up with its log elsewhere than on the output stream, a directory with a directory in it, and a list of known
crates that can be read. -/
structure Prepare.Started (args : List Bytes) (s : Session) (dir : Bytes) (options : Options) (config : Config)
    (u : Session) (directory : Location) : Prop where
  read : ∃ workers, CommandLine.read args = .ok (.preprocess dir workers, options)
  timeout : 0 ≤ options.timeout
  logging : s.logging = none
  setUp : ∃ path, (Setup.setUp options).run s = (.ok (path, config), u)
  target : Log.Target.ofSetting config.logging.target ≠ .stdout
  sound : u.world.tree.Sound
  found : u.world.tree.find true dir = .ok (directory, .directory)
  crate : ∃ name, u.world.tree.get? (directory ++ [name]) = some .directory
  known : Readable u.world.tree options.known

variable {args : List Bytes} {dir : Bytes} {options : Options} {config : Config} {u : Session} {directory : Location}

/-- A preparation that has started comes to its end. -/
theorem Prepare.Started.exists_invoke (h : Started args s dir options config u directory) :
    let e : Evaluator := ⟨config, Duration.ofSeconds options.timeout⟩
    ∃ names : List Bytes, names.Pairwise (· < ·) ∧
      (∀ name, name ∈ names ↔
        u.world.tree.get? (directory ++ [name]) = some .directory ∧ ¬ Known u.world.tree options.known name) ∧
      (invoke args s).1 = 0 ∧
      (invoke args s).2.world.launches =
        s.world.launches ++ names.flatMap (fun name => e.preparation (.below dir name)) ∧
      (invoke args s).2.stream .output =
        s.stream .output ++ unlines (Course.ready e (context u.host) u (inTurn (names.map (.below dir)))) := by
  intro e
  obtain ⟨workers, hread⟩ := h.read
  obtain ⟨path, hsetUp⟩ := h.setUp
  obtain ⟨⟨logger, hlogging⟩, -, hlaunches, hstream⟩ := Setup.exists_of_setUp h.logging hsetUp h.target
  obtain ⟨found, known, names, hfound, hknown, hpending, hsorted, hnames⟩ :=
    exists_jobs h.sound h.found h.crate h.known
  have hnodup : (names.map (Job.below dir)).Nodup := hsorted.nodup.map fun _ _ heq => congrArg Job.id heq
  have hworkers : ¬ workers < 1 :=
    Int64.not_lt.mpr (CommandLine.one_le_of_pos (CommandLine.positive_of_read hread))
  have hseconds : ¬ options.timeout < 0 := Int64.not_lt.mpr h.timeout
  obtain ⟨v, hrun, houtput⟩ := exists_run config (r := ⟨dir, workers, options.known, options.timeout⟩) hworkers hseconds
    hfound hknown (hpending ▸ hnodup) hlogging h.target
  have hlaunched := launches_prepareAll config (r := ⟨dir, workers, options.known, options.timeout⟩) hworkers hseconds u
  rw [hrun, run_jobs hfound hknown, hpending, hlaunches] at hlaunched
  rw [hpending, hstream] at houtput
  -- the invocation is the setup and then the preparation
  have hperform : (perform args).run s = (.ok (), v) := by
    rw [perform, hread, Step.run_ok_bind]
    dsimp only
    rw [Step.run_bind, hsetUp]
    exact hrun
  have hinvoke : invoke args s = (0, v) := by rw [invoke, hperform]
  rw [hinvoke]
  refine ⟨names, hsorted, hnames, rfl, hlaunched.trans ?_, houtput⟩
  rw [Step.asked, List.flatMap_map]

/-- A preparation of crates by one worker, with a list of known crates. -/
def prepareArgs : List Bytes := ["preprocess", "crates", "1", "--known", "known"].map lit

/-- A session with three crates, one of which is known, and a checker that makes the markers of the first one. -/
def yard (links : List (Location × Entry)) : Session :=
  { host := ⟨[], ⟨0⟩, 0, []⟩
    world :=
      { environment := ⟨[(lit "PATH", lit "/bin")]⟩
        tree := { entries := links ++ [
          ([lit "known"], .file (lit "old/c/\n")), ([lit "crates"], .directory),
          ([lit "crates", lit "a"], .directory), ([lit "crates", lit "b"], .directory),
          ([lit "crates", lit "c"], .directory), ([lit "bin"], .directory),
          ([lit "bin", lit "cargo"], .program (.runs fun _ => {})),
          ([lit "bin", lit "cargo-ffi-checker"], .program (.runs fun call =>
            if call.directory = [lit "crates", lit "a"] then
              { files := [lit "target/entry_points", lit "target/bitcode_paths"] }
            else {}))] } } }

/-- A link from the second crate to the build directory of the first one. -/
def shortcut : Location × Entry := ([lit "crates", lit "b", lit "target"], .link (lit "../a/target"))

theorem read_prepareArgs :
    CommandLine.read prepareArgs = .ok (.preprocess (lit "crates") 1, { known := lit "known" }) :=
  CommandLine.eq_ok_of_toOption (by decide +kernel)

/-- The yard once the session is set up. -/
def yardAtWork (links : List (Location × Entry)) : Session :=
  ((Setup.setUp { known := lit "known" }).run (yard links)).2

/-- What there is in the yard: a configuration, the ways of the commands, the list of known crates, and the entries. -/
theorem facts_yard {links : List (Location × Entry)} (h : links = [] ∨ links = [shortcut]) :
    ((Setup.setUp { known := lit "known" }).run (yard links)).1.toOption = some ([], {}) ∧
    (∀ name ∈ [lit "a", lit "b"], ∀ step ∈ (yard links).world.tree.way [] (Job.below (lit "crates") name).dir,
      step.2 = true → step.1 = [lit "crates", name]) ∧
    (∀ path ∈ [lit "target/entry_points", lit "target/bitcode_paths"],
      (yard links).world.tree.Clear ((Job.below (lit "crates") (lit "a")).places [lit "crates"])ᶜ
          [lit "crates", lit "a"] path ∧
        (yard links).world.tree.Clear ((Job.below (lit "crates") (lit "a")).places [lit "crates"])ᶜ
          [lit "crates", lit "a"] (Path.parent path)) ∧
    ((yardAtWork links).world.tree.openRead (lit "known")).toOption.bind
      (fun entry => (FileTree.content (lit "known") entry).toOption) = some (lit "old/c/\n") ∧
    ((yardAtWork links).world.tree.find true (lit "crates")).toOption.any
      (fun found => found.1 = [lit "crates"] ∧ found.2.isDirectory = true) = true ∧
    ((yardAtWork links).world.tree.entries.map (·.1)).Nodup ∧
    (∀ e ∈ (yardAtWork links).world.tree.entries, [] ∉ e.1 ∧ (e.1.dropLast = [lit "crates"] →
      e.1.getLast? ∈ [some (lit "a"), some (lit "b"), some (lit "c")])) ∧
    ∀ name ∈ [lit "a", lit "b", lit "c"],
      ((yardAtWork links).world.tree.get? ([lit "crates"] ++ [name])).any Entry.isDirectory = true := by
  obtain rfl | rfl := h <;> decide +kernel

theorem setUp_yard {links : List (Location × Entry)} (h : links = [] ∨ links = [shortcut]) :
    (Setup.setUp { known := lit "known" }).run (yard links) = (.ok ([], {}), yardAtWork links) := by
  obtain ⟨hconfig, -⟩ := facts_yard h
  exact Prod.ext (CommandLine.eq_ok_of_toOption hconfig) rfl

/-- The commands in the yard write in their crates only. -/
theorem confines_yard {links : List (Location × Entry)} (h : links = [] ∨ links = [shortcut]) {name : Bytes}
    (hname : name = lit "a" ∨ name = lit "b") {l : Launch} (hl : l.dir = (Job.below (lit "crates") name).dir) :
    (yardAtWork links).world.Confines ((Job.below (lit "crates") name).places [lit "crates"]) l := by
  obtain ⟨-, hway, hclear, -⟩ := facts_yard h
  have hkeeps := Setup.keeps_setUp rfl (setUp_yard h)
  refine World.confines_of_programs hkeeps.descends hkeeps.current_eq ?_
  intro place action hprogram call hcall
  rw [hl] at hcall
  have hroot : place ≠ [] := by
    rintro rfl
    cases hprogram
  have hmem := mem_entries_of_get? hprogram hroot
  have hcrate : call.directory = [lit "crates", name] := hway name (by simpa using hname) _ hcall rfl
  have haction : action = (fun _ => {}) ∨ action = fun call =>
      if call.directory = [lit "crates", lit "a"] then
        { files := [lit "target/entry_points", lit "target/bitcode_paths"] }
      else {} := by
    have hprograms : (place, Entry.program (.runs action)) ∈ (yard []).world.tree.entries := by
      obtain rfl | rfl := h
      · exact hmem
      · exact (List.mem_cons.mp hmem).resolve_left (by simp [shortcut])
    simp only [yard, List.nil_append, List.mem_cons, Prod.mk.injEq, reduceCtorEq, and_false, false_or,
      Entry.program.injEq, Program.runs.injEq, List.not_mem_nil, or_false] at hprograms
    exact hprograms.imp And.right And.right
  have hnothing : ({} : Action).Within ((Job.below (lit "crates") name).places [lit "crates"]) (yard links).world.tree
      call.directory :=
    ⟨fun _ hpath => absurd hpath List.not_mem_nil, fun _ hpath => absurd hpath List.not_mem_nil,
      fun _ hpath => absurd hpath List.not_mem_nil⟩
  obtain rfl | rfl := haction
  · exact hnothing
  · dsimp only
    split_ifs with ha
    · refine ⟨fun _ hpath => absurd hpath List.not_mem_nil, fun _ hpath => absurd hpath List.not_mem_nil, ?_⟩
      obtain rfl : name = lit "a" := by simpa [ha] using hcrate.symm
      rw [ha]
      exact hclear
    · exact hnothing

theorem commands_yard {links : List (Location × Entry)} (h : links = [] ∨ links = [shortcut]) (e : Evaluator) :
    ∀ job ∈ [lit "a", lit "b"].map (Job.below (lit "crates")), ∀ l ∈ e.preparation job,
      (yardAtWork links).world.Confines (job.places [lit "crates"]) l := by
  intro job hjob l hl
  obtain ⟨name, hname, rfl⟩ := List.mem_map.mp hjob
  refine confines_yard h (by simpa using hname) ?_
  simp only [Evaluator.preparation, List.mem_cons, List.not_mem_nil, or_false] at hl
  obtain rfl | rfl := hl <;> rfl

/-- Without the link, the crates in the yard keep to themselves. -/
theorem independent_yard : Independent ⟨{}, Duration.ofSeconds 0⟩ [lit "crates"]
    (Log.Target.ofSetting ({} : Config).logging.target) ([lit "a", lit "b"].map (Job.below (lit "crates")))
    (yardAtWork []).world := by
  refine ⟨fun _ _ => trivial, commands_yard (.inl rfl) _, ?_, by decide +kernel⟩
  intro job hjob
  have hinside : ∀ job ∈ [lit "a", lit "b"].map (Job.below (lit "crates")),
      ∀ step ∈ (yardAtWork []).world.tree.way (yardAtWork []).world.tree.current job.dir, step.2 = true →
        ∀ path ∈ (yardAtWork []).world.candidates ({} : Config).preprocess.path,
          ((yardAtWork []).world.tree.inside step.1).Clear (foreign [lit "crates"]
            (Log.Target.ofSetting ({} : Config).logging.target) ([lit "a", lit "b"].map (Job.below (lit "crates")))
            (yardAtWork []).world.tree job) step.1 path := by
    decide +kernel
  have hfile : ∀ job ∈ [lit "a", lit "b"].map (Job.below (lit "crates")),
      ∀ path ∈ job.dir :: (yardAtWork []).world.candidates ({} : Config).preprocess.path,
        (yardAtWork []).world.tree.Clear (foreign [lit "crates"]
          (Log.Target.ofSetting ({} : Config).logging.target) ([lit "a", lit "b"].map (Job.below (lit "crates")))
          (yardAtWork []).world.tree job) (yardAtWork []).world.tree.current path := by
    decide +kernel
  obtain ⟨hdirectory, hfile⟩ := List.forall_mem_cons.mp (hfile job hjob)
  exact ⟨hfile, hdirectory, fun place hplace =>
    hinside job hjob (place, true) (World.workingDirectory_eq_ok hplace) rfl⟩

theorem openRead_yard {links : List (Location × Entry)} (h : links = [] ∨ links = [shortcut]) :
    ∃ entry, (yardAtWork links).world.tree.openRead (lit "known") = .ok entry ∧
      FileTree.content (lit "known") entry = .ok (lit "old/c/\n") := by
  obtain ⟨-, -, -, hread, -⟩ := facts_yard h
  obtain ⟨entry, hopen, hcontent⟩ := Option.bind_eq_some_iff.mp hread
  exact ⟨entry, CommandLine.eq_ok_of_toOption hopen, CommandLine.eq_ok_of_toOption hcontent⟩

theorem directory_yard {links : List (Location × Entry)} (h : links = [] ∨ links = [shortcut]) {name : Bytes} :
    (yardAtWork links).world.tree.get? ([lit "crates"] ++ [name]) = some .directory ↔
      name ∈ [lit "a", lit "b", lit "c"] := by
  obtain ⟨-, -, -, -, -, -, hall, hdirectory⟩ := facts_yard h
  constructor
  · intro hget
    simpa using (hall _ (mem_entries_of_get? hget (by simp))).2 (by simp)
  · intro hname
    obtain ⟨entry, hget, hentry⟩ := (Option.any_eq_true _ _).mp (hdirectory name hname)
    rw [hget, Entry.isDirectory_iff.mp hentry]

theorem known_yard {links : List (Location × Entry)} (h : links = [] ∨ links = [shortcut]) {name : Bytes} :
    Prepare.Known (yardAtWork links).world.tree (lit "known") name ↔ name = lit "c" := by
  have hlisted : (Job.listed (lit "old/c/\n")).map Path.base = [lit "c"] := by decide
  obtain ⟨entry, hopen, hcontent⟩ := openRead_yard h
  constructor
  · rintro ⟨-, entry', text', hopen', hcontent', hname⟩
    obtain rfl := Except.ok.inj (hopen.symm.trans hopen')
    obtain rfl := Except.ok.inj (hcontent.symm.trans hcontent')
    rw [← List.mem_singleton, ← hlisted]
    exact List.mem_map.mpr hname
  · rintro rfl
    refine ⟨by decide, entry, _, hopen, hcontent, List.mem_map.mp ?_⟩
    rw [hlisted]
    exact List.mem_singleton.mpr rfl

theorem started_yard {links : List (Location × Entry)} (h : links = [] ∨ links = [shortcut]) :
    Prepare.Started prepareArgs (yard links) (lit "crates") { known := lit "known" } {} (yardAtWork links)
      [lit "crates"] where
  read := ⟨1, read_prepareArgs⟩
  timeout := by decide
  logging := rfl
  setUp := ⟨[], setUp_yard h⟩
  target := by decide
  sound := by
    obtain ⟨-, -, -, -, -, hnodup, hall, -⟩ := facts_yard h
    exact ⟨hnodup, fun e he => (hall e he).1⟩
  found := by
    obtain ⟨-, -, -, -, hfind, -⟩ := facts_yard h
    obtain ⟨⟨place, entry⟩, hfound, hcrates⟩ := (Option.any_eq_true _ _).mp hfind
    obtain ⟨rfl, hentry⟩ := of_decide_eq_true hcrates
    obtain rfl : entry = .directory := Entry.isDirectory_iff.mp hentry
    exact CommandLine.eq_ok_of_toOption hfound
  crate := ⟨lit "a", (directory_yard h).mpr (by decide)⟩
  known := by
    obtain ⟨entry, hopen, hcontent⟩ := openRead_yard h
    exact .inr ⟨entry, _, hopen, hcontent, by decide⟩

/-- The crates in the yard that are to be prepared. -/
theorem names_yard {links : List (Location × Entry)} (h : links = [] ∨ links = [shortcut]) {names : List Bytes}
    (hsorted : names.Pairwise (· < ·)) (hnames : ∀ name, name ∈ names ↔
      (yardAtWork links).world.tree.get? ([lit "crates"] ++ [name]) = some .directory ∧
        ¬ Prepare.Known (yardAtWork links).world.tree (lit "known") name) : names = [lit "a", lit "b"] := by
  refine eq_of_pairwise_lt hsorted (by decide) fun name => ?_
  rw [hnames, directory_yard h, known_yard h]
  constructor
  · rintro ⟨hmem, hc⟩
    simpa [hc] using hmem
  · intro hmem
    exact ⟨List.mem_of_mem_take (i := 2) hmem, by rintro rfl; exact absurd hmem (by decide)⟩

end CrateAudit
