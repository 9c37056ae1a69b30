import Pqueue.Program.Trial
import Pqueue.Store.Faults

/-!
# Trying the methods

What a method does to one object and one directory is computed, with some of its calls failing.
-/

namespace Pqueue

open Effect LittleEndian

/-- Some calls fail, each leaving the world that `fails` says; the others complete. -/
def failing {κ : Type} (env : Env) (fails : FsCall → World → Option World) :
    Prog.Handler (Fs κ) World := fun c w =>
  match fails c w with
  | some w' => (.error ⟨.writeFailed, "failed to write file"⟩, w')
  | none => handle env c w

/-- No call fails. -/
def allComplete : FsCall → World → Option World := fun _ _ => none

/-- Every write fails after `n` bytes, if it has more. -/
def writesStop (n : ℕ) : FsCall → World → Option World := fun c w => torn c n w

section TryMethod

variable {σ α : Type} (env : Env) (fails : FsCall → World → Option World)
  (A : StoreMark → Disk → Prop) [∀ mk d, Decidable (A mk d)]

/-- What the method leads to, if its marked points meet `A`. -/
def tryMethod (m : Act (Fs StoreMark) σ Status α) (s : σ) (w : World) :
    Option ((Except Status α × σ) × World) :=
  Prog.trial (failing env fails) (fun mk w => A mk w.disk) (m s) w

variable {env fails A} {harm : FsCall → Disk → Disk → Prop}

/-- It is an execution when `harm` allows what the failing calls do. -/
lemma executes_of_tryMethod (hf : ∀ c w w', fails c w = some w' → harm c w.disk w'.disk)
    {m : Act (Fs StoreMark) σ Status α} {s s' : σ} {w w' : World} {r : Except Status α}
    (h : tryMethod env fails A m s w = some ((r, s'), w')) : Executes env harm A m s w r s' w' := by
  refine Prog.exec_of_trial (P := fun _ => True) ?_ trivial h
  intro c w _
  unfold failing
  split
  · next w' hw => exact ⟨.inr ⟨⟨_, rfl⟩, hf c w w' hw⟩, trivial⟩
  · exact ⟨.inl rfl, trivial⟩

lemma executes_of_complete {m : Act (Fs StoreMark) σ Status α} {s s' : σ} {w w' : World}
    {r : Except Status α} (h : tryMethod env allComplete A m s w = some ((r, s'), w')) :
    Executes env harm A m s w r s' w' :=
  executes_of_tryMethod (fun _ _ _ hw => by cases hw) h

end TryMethod

end Pqueue
