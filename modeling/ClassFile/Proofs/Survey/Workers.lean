import Mathlib.Data.List.Induction
import Mathlib.Data.List.Perm.Basic
import Mathlib.Logic.Relation
import ClassFile.Survey.Report

/-! The workers of a survey. A worker that looked at a file puts what it found among the types that are kept,
which is one step for all others; a failure is counted in a step of its own, so that others may do much in
between. Still a survey comes to what it would come to if one worker took the files in some order. -/

namespace ClassFile.Survey

/-- What is left to do for a file. -/
inductive Task where
  | look (file : Examined)
  /-- A failure was found, and has to be counted. -/
  | count

namespace Task

/-- The files that nobody looked at yet. -/
def remaining : List Task → List Examined
  | [] => []
  | .look file :: tasks => file :: remaining tasks
  | .count :: tasks => remaining tasks

/-- The number of failures that were found and are not counted yet. -/
def owed : List Task → Nat
  | [] => 0
  | .look _ :: tasks => owed tasks
  | .count :: tasks => owed tasks + 1

@[simp] theorem remaining_append (tasks more : List Task) :
    remaining (tasks ++ more) = remaining tasks ++ remaining more := by
  induction tasks with
  | nil => rfl
  | cons task rest ih => cases task <;> simp [remaining, ih]

@[simp] theorem owed_append (tasks more : List Task) : owed (tasks ++ more) = owed tasks + owed more := by
  induction tasks with
  | nil => simp [owed]
  | cons task rest ih => cases task <;> simp [owed, ih, Nat.add_right_comm]

theorem remaining_looks (files : List Examined) : remaining (files.map .look) = files := by
  induction files with
  | nil => rfl
  | cons file rest ih => rw [List.map_cons, remaining, ih]

theorem owed_looks (files : List Examined) : owed (files.map .look) = 0 := by
  induction files with
  | nil => rfl
  | cons file rest ih => rw [List.map_cons, owed, ih]

end Task

/-- What the workers share, and the tasks that are left, in any order. -/
structure Workers where
  kept : List Kept
  failures : Nat
  tasks : List Task

namespace Workers

def start (files : List Examined) : Workers := ⟨[], 0, files.map .look⟩

/-- A worker goes on with one of the tasks, whichever it is. -/
inductive Step : Workers → Workers → Prop
  | refuse {kept failures front back file error} (h : file.result = .error error) :
    Step ⟨kept, failures, front ++ .look file :: back⟩ ⟨kept, failures, front ++ .count :: back⟩
  | keep {kept after failures front back file decl} (h : file.result = .ok decl)
    (hplace : place ⟨file.path, decl⟩ kept = (after, none)) :
    Step ⟨kept, failures, front ++ .look file :: back⟩ ⟨after, failures, front ++ back⟩
  | discard {kept after failures front back file decl path} (h : file.result = .ok decl)
    (hplace : place ⟨file.path, decl⟩ kept = (after, some path)) :
    Step ⟨kept, failures, front ++ .look file :: back⟩ ⟨after, failures, front ++ .count :: back⟩
  | count {kept failures front back} :
    Step ⟨kept, failures, front ++ .count :: back⟩ ⟨kept, failures + 1, front ++ back⟩

end Workers

/-- A report that workers can come to who share the work on some files among them. -/
structure Settled (files : List Examined) (report : Report) : Prop where
  count : report.files = files.length
  run : Relation.ReflTransGen Workers.Step (.start files) ⟨report.kept, report.failures, []⟩

namespace Report

variable {report : Report} {file : Examined} {decl : TypeDecl} {kept : List Kept}

theorem record_refused {error : Error} (h : file.result = .error error) :
    (report.record file).1 = ⟨report.files + 1, report.kept, report.failures + 1⟩ := by
  rw [record, h]

theorem record_kept (h : file.result = .ok decl)
    (hplace : place ⟨file.path, decl⟩ report.kept = (kept, none)) :
    (report.record file).1 = ⟨report.files + 1, kept, report.failures⟩ := by
  rw [record, h]
  dsimp only
  rw [hplace]

theorem record_discarded {path : String} (h : file.result = .ok decl)
    (hplace : place ⟨file.path, decl⟩ report.kept = (kept, some path)) :
    (report.record file).1 = ⟨report.files + 1, kept, report.failures + 1⟩ := by
  rw [record, h]
  dsimp only
  rw [hplace]

/-- A file is refused, or its type is kept, or one of two files with a type is discarded. -/
theorem record_cases (report : Report) (file : Examined) :
    (∃ error, file.result = .error error ∧
      (report.record file).1 = ⟨report.files + 1, report.kept, report.failures + 1⟩) ∨
    (∃ decl kept, file.result = .ok decl ∧ place ⟨file.path, decl⟩ report.kept = (kept, none) ∧
      (report.record file).1 = ⟨report.files + 1, kept, report.failures⟩) ∨
    ∃ decl kept path, file.result = .ok decl ∧ place ⟨file.path, decl⟩ report.kept = (kept, some path) ∧
      (report.record file).1 = ⟨report.files + 1, kept, report.failures + 1⟩ := by
  cases hfile : file.result with
  | error error => exact .inl ⟨error, rfl, record_refused hfile⟩
  | ok decl =>
      cases hplace : place ⟨file.path, decl⟩ report.kept with
      | mk kept repeated =>
          cases repeated with
          | none => exact .inr (.inl ⟨decl, kept, rfl, hplace, record_kept hfile hplace⟩)
          | some path => exact .inr (.inr ⟨decl, kept, path, rfl, hplace, record_discarded hfile hplace⟩)

theorem ofFiles_concat (files : List Examined) (file : Examined) :
    ofFiles (files ++ [file]) = ((ofFiles files).record file).1 := by
  rw [ofFiles, List.foldl_append]
  rfl

end Report

namespace Workers

/-- What was done so far is what one worker would have done who took some of the files in some order. -/
def Serial (files : List Examined) (w : Workers) : Prop :=
  ∃ taken, (taken ++ Task.remaining w.tasks).Perm files ∧ w.kept = (Report.ofFiles taken).kept ∧
    w.failures + Task.owed w.tasks = (Report.ofFiles taken).failures

variable {files : List Examined} {w w' : Workers}

theorem serial_start (files : List Examined) : (start files).Serial files := by
  refine ⟨[], ?_, rfl, ?_⟩
  · rw [start, Task.remaining_looks]
    exact .rfl
  · rw [start, Task.owed_looks]
    rfl

/-- A file that is looked at next goes behind those that were taken before. -/
theorem perm_taken {taken front back : List Examined} {file : Examined}
    (h : (taken ++ (front ++ file :: back)).Perm files) :
    (taken ++ [file] ++ (front ++ back)).Perm files := by
  rw [List.append_assoc, List.singleton_append]
  exact (List.perm_middle.symm.append_left taken).trans h

theorem Step.serial (hstep : Step w w') (h : w.Serial files) : w'.Serial files := by
  obtain ⟨taken, hperm, hkept, hfailures⟩ := h
  cases hstep with
  | @refuse _ _ _ _ file _ hfile =>
      simp only [Task.remaining_append, Task.remaining, Task.owed_append, Task.owed] at hperm hkept hfailures
      refine ⟨taken ++ [file], ?_, ?_, ?_⟩
      · simpa only [Task.remaining_append, Task.remaining] using perm_taken hperm
      · rw [Report.ofFiles_concat, Report.record_refused hfile, hkept]
      · rw [Report.ofFiles_concat, Report.record_refused hfile, ← hfailures]
        simp only [Task.owed_append, Task.owed, Nat.add_assoc]
  | @keep _ _ _ _ _ file _ hfile hplace =>
      simp only [Task.remaining_append, Task.remaining, Task.owed_append, Task.owed] at hperm hkept hfailures
      have hrecord := Report.record_kept hfile (hkept ▸ hplace)
      refine ⟨taken ++ [file], ?_, ?_, ?_⟩
      · simpa only [Task.remaining_append] using perm_taken hperm
      · rw [Report.ofFiles_concat, hrecord]
      · rw [Report.ofFiles_concat, hrecord, ← hfailures]
        simp only [Task.owed_append]
  | @discard _ _ _ _ _ file _ _ hfile hplace =>
      simp only [Task.remaining_append, Task.remaining, Task.owed_append, Task.owed] at hperm hkept hfailures
      have hrecord := Report.record_discarded hfile (hkept ▸ hplace)
      refine ⟨taken ++ [file], ?_, ?_, ?_⟩
      · simpa only [Task.remaining_append, Task.remaining] using perm_taken hperm
      · rw [Report.ofFiles_concat, hrecord]
      · rw [Report.ofFiles_concat, hrecord, ← hfailures]
        simp only [Task.owed_append, Task.owed, Nat.add_assoc]
  | count =>
      simp only [Task.remaining_append, Task.remaining, Task.owed_append, Task.owed] at hperm hkept hfailures
      refine ⟨taken, ?_, hkept, ?_⟩
      · simpa only [Task.remaining_append] using hperm
      · rw [← hfailures, Task.owed_append]
        dsimp only
        omega

theorem serial_of_run (hrun : Relation.ReflTransGen Step (start files) w) : w.Serial files := by
  induction hrun with
  | refl => exact serial_start files
  | tail _ hstep ih => exact hstep.serial ih

/-- A file is looked at, and a failure is counted at once. -/
theorem run_look (report : Report) (file : Examined) (front back : List Task) :
    Relation.ReflTransGen Step ⟨report.kept, report.failures, front ++ .look file :: back⟩
      ⟨(report.record file).1.kept, (report.record file).1.failures, front ++ back⟩ := by
  rcases report.record_cases file with ⟨_, hfile, hrecord⟩ | ⟨_, _, hfile, hplace, hrecord⟩ |
    ⟨_, _, _, hfile, hplace, hrecord⟩
  · rw [hrecord]
    exact .tail (.single (.refuse hfile)) .count
  · rw [hrecord]
    exact .single (.keep hfile hplace)
  · rw [hrecord]
    exact .tail (.single (.discard hfile hplace)) .count

/-- The workers may take the files in any order. -/
theorem run_order (order : List Examined) (report : Report) {tasks : List Task}
    (h : tasks.Perm (order.map .look)) :
    Relation.ReflTransGen Step ⟨report.kept, report.failures, tasks⟩
      ⟨(order.foldl (fun report file => (report.record file).1) report).kept,
        (order.foldl (fun report file => (report.record file).1) report).failures, []⟩ := by
  induction order generalizing report tasks with
  | nil =>
      obtain rfl := h.eq_nil
      exact .refl
  | cons file rest ih =>
      obtain ⟨front, back, rfl⟩ := List.append_of_mem (h.symm.subset List.mem_cons_self)
      exact (run_look report file front back).trans (ih _ (List.perm_middle.symm.trans h).cons_inv)

end Workers

namespace Report

theorem files_ofFiles (files : List Examined) : (ofFiles files).files = files.length := by
  induction files using List.reverseRecOn with
  | nil => rfl
  | append_singleton files file ih =>
      rw [ofFiles_concat, List.length_append, ← ih]
      rcases (ofFiles files).record_cases file with ⟨_, _, hrecord⟩ | ⟨_, _, _, _, hrecord⟩ |
        ⟨_, _, _, _, _, hrecord⟩ <;> rw [hrecord] <;> rfl

end Report

/-- The workers come to nothing but what one worker comes to who takes the files in some order, and to all
of that. -/
theorem settled_iff {files : List Examined} {report : Report} :
    Settled files report ↔ ∃ order, order.Perm files ∧ report = .ofFiles order := by
  constructor
  · rintro ⟨hfiles, hrun⟩
    obtain ⟨taken, hperm, hkept, hfailures⟩ := Workers.serial_of_run hrun
    rw [Task.remaining, List.append_nil] at hperm
    refine ⟨taken, hperm, ?_⟩
    have htaken : report.files = (Report.ofFiles taken).files := by
      rw [hfiles, Report.files_ofFiles, hperm.length_eq]
    calc report
      _ = ⟨report.files, report.kept, report.failures⟩ := rfl
      _ = ⟨(Report.ofFiles taken).files, (Report.ofFiles taken).kept, (Report.ofFiles taken).failures⟩ := by
        rw [htaken, ← hkept, ← hfailures]
        rfl
  · rintro ⟨order, hperm, rfl⟩
    exact ⟨(Report.files_ofFiles order).trans hperm.length_eq,
      Workers.run_order order .empty (hperm.symm.map _)⟩

end ClassFile.Survey
