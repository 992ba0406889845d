import Teecryptor.Lib.Prog

/-!
# Programs that write on the side

Code that writes into a sink is written once, for a sink that is kept and for none (`Sinks`). With a
sink it tracks the code without (`Tracks`) when it runs as that does, and leaves in the sink what
the run's events say. Code tracks as soon as its parts do, each at its own place.
-/

namespace Interact

open Prog

variable {S : Sig} {σ α β ε : Type} {w : Event S → σ → σ}

/-- What the events of a trace write, one after the other. -/
def written (w : Event S → σ → σ) (tr : Trace S) (s : σ) : σ := tr.foldl (fun s e => w e s) s

@[simp] theorem written_nil (s : σ) : written w [] s = s := rfl

@[simp] theorem written_cons (e : Event S) (tr : Trace S) (s : σ) :
    written w (e :: tr) s = written w tr (w e s) := rfl

@[simp] theorem written_append (tr₁ tr₂ : Trace S) (s : σ) :
    written w (tr₁ ++ tr₂) s = written w tr₂ (written w tr₁ s) := List.foldl_append ..

/-- An event that writes nothing. -/
def Silent (w : Event S → σ → σ) (e : Event S) : Prop := ∀ s, w e s = s

theorem written_of_silent {tr : Trace S} (h : Only (Silent w) tr) (s : σ) : written w tr s = s := by
  induction tr generalizing s with
  | nil => rfl
  | cons e tr ih =>
    rw [written_cons, h e List.mem_cons_self]
    exact ih (fun e' he' => h e' (List.mem_cons_of_mem _ he')) s

/-- Runs programs, which leave the sink alone, and changes what is in the sink. -/
class Sinks (σ : outParam Type) (S : outParam Sig) (m : Type → Type) where
  quietly {α : Type} : Prog S α → m α
  modifySink : (σ → σ) → m Unit

export Sinks (quietly modifySink)

instance : Sinks σ S (StateT σ (Prog S)) where
  quietly y := StateT.lift y
  modifySink f := modify f

/-- A sink that keeps nothing. -/
@[reducible] def Sinks.none (σ : Type) (S : Sig) : Sinks σ S (Prog S) where
  quietly y := y
  modifySink _ := .pure ()

/-- `x` runs as `y`, and leaves in the sink what the run's events write. -/
def Tracks (w : Event S → σ → σ) (x : StateT σ (Prog S) α) (y : Prog S α) : Prop :=
  ∀ s tr a s', Run (x.run s) tr (a, s') ↔ Run y tr a ∧ s' = written w tr s

theorem run_quietly {y : Prog S α} {s s' : σ} {tr : Trace S} {a : α} :
    Run ((quietly y : StateT σ (Prog S) α).run s) tr (a, s') ↔ Run y tr a ∧ s' = s := by
  show Run (y.bind fun a => .pure (a, s)) tr (a, s') ↔ _
  rw [run_bind]
  constructor
  · rintro ⟨tr₁, tr₂, a', rfl, h₁, h₂⟩
    obtain ⟨rfl, hr⟩ := run_pure.1 h₂
    cases hr
    exact ⟨by simpa using h₁, rfl⟩
  · rintro ⟨h, rfl⟩
    exact ⟨tr, [], a, by simp, h, run_pure.2 ⟨rfl, rfl⟩⟩

theorem tracks_quietly {y : Prog S α} (h : Always (Only (Silent w)) y) : Tracks w (quietly y) y := by
  intro s tr a s'
  rw [run_quietly]
  exact and_congr_right fun hrun => by rw [written_of_silent (h.run hrun)]

theorem tracks_pure (a : α) : Tracks w (pure a) (.pure a) :=
  tracks_quietly ((mixes_only _).pure a)

theorem run_stateBind {x : StateT σ (Prog S) α} {k : α → StateT σ (Prog S) β} {s s' : σ}
    {tr : Trace S} {b : β} : Run ((x >>= k).run s) tr (b, s') ↔
      ∃ tr₁ tr₂ a s₁, tr = tr₁ ++ tr₂ ∧ Run (x.run s) tr₁ (a, s₁)
        ∧ Run ((k a).run s₁) tr₂ (b, s') := by
  rw [StateT.run_bind, bind_eq, run_bind]
  constructor
  · rintro ⟨tr₁, tr₂, ⟨a, s₁⟩, h⟩
    exact ⟨tr₁, tr₂, a, s₁, h⟩
  · rintro ⟨tr₁, tr₂, a, s₁, h⟩
    exact ⟨tr₁, tr₂, (a, s₁), h⟩

/-- What follows `x` has to track for the values `y` can give. -/
theorem Tracks.bind {x : StateT σ (Prog S) α} {y : Prog S α} {k : α → StateT σ (Prog S) β}
    {k' : α → Prog S β} (hx : Tracks w x y) (hk : ∀ a tr, Run y tr a → Tracks w (k a) (k' a)) :
    Tracks w (x >>= k) (y.bind k') := by
  intro s tr b s'
  rw [run_stateBind, run_bind]
  constructor
  · rintro ⟨tr₁, tr₂, a, s₁, rfl, h₁, h₂⟩
    obtain ⟨hy, rfl⟩ := (hx _ _ _ _).1 h₁
    obtain ⟨hy', rfl⟩ := (hk a tr₁ hy _ _ _ _).1 h₂
    exact ⟨⟨tr₁, tr₂, a, rfl, hy, hy'⟩, (written_append _ _ _).symm⟩
  · rintro ⟨⟨tr₁, tr₂, a, rfl, h₁, h₂⟩, rfl⟩
    exact ⟨tr₁, tr₂, a, _, rfl, (hx _ _ _ _).2 ⟨h₁, rfl⟩,
      (hk a tr₁ h₁ _ _ _ _).2 ⟨h₂, written_append _ _ _⟩⟩

/-! ## Programs that can stop early -/

section Except

abbrev SinkT (σ : Type) (S : Sig) (ε α : Type) := ExceptT ε (StateT σ (Prog S)) α

variable {m : Type → Type} [Monad m] [Sinks σ S m]

def write (f : σ → σ) : ExceptT ε m Unit := ExceptT.lift (modifySink f)

/-- A program that leaves the sink alone, and can stop early. -/
def quiet (y : ExceptT ε (Prog S) α) : ExceptT ε m α := ExceptT.mk (quietly y.run)

theorem run_write (f : σ → σ) (k : SinkT σ S ε α) (s : σ) :
    ((write f >>= fun _ => k).run.run s) = k.run.run (f s) := rfl

theorem write_write (f g : σ → σ) (k : SinkT σ S ε α) :
    (write f >>= fun _ => write g >>= fun _ => k) = write (fun s => g (f s)) >>= fun _ => k := rfl

theorem tracks_quiet {y : ExceptT ε (Prog S) α} (h : Always (Only (Silent w)) y.run) :
    Tracks w (quiet y : SinkT σ S ε α).run y.run := tracks_quietly h

theorem tracks_exceptPure (a : α) :
    Tracks w (pure a : SinkT σ S ε α).run (pure a : ExceptT ε (Prog S) α).run := tracks_pure _

theorem Tracks.exceptBind {x : SinkT σ S ε α} {y : ExceptT ε (Prog S) α} {k : α → SinkT σ S ε β}
    {k' : α → ExceptT ε (Prog S) β} (hx : Tracks w x.run y.run)
    (hk : ∀ a tr, Run y.run tr (.ok a) → Tracks w (k a).run (k' a).run) :
    Tracks w (x >>= k).run (y >>= k').run := by
  rw [ExceptT.run_bind, ExceptT.run_bind]
  refine hx.bind fun r tr hr => ?_
  rcases r with e | a
  · exact tracks_pure _
  · exact hk a tr hr

theorem Tracks.lift {x : StateT σ (Prog S) α} {y : Prog S α} (h : Tracks w x y) :
    Tracks w (ExceptT.lift x : SinkT σ S ε α).run (ExceptT.lift y : ExceptT ε (Prog S) α).run := by
  rw [ExceptT.run_lift, ExceptT.run_lift]
  exact h.bind fun a _ _ => tracks_pure _

/-- An operation, and what it writes after it. -/
theorem Tracks.call_write {o : S.Op} {f : σ → σ} (hw : ∀ x, w ⟨o, x⟩ = f)
    {k : S.Ans o → SinkT σ S ε α} {k' : S.Ans o → ExceptT ε (Prog S) α}
    (hk : ∀ x, Tracks w (k x).run (k' x).run) :
    Tracks w ((quiet (ExceptT.lift (call o)) : SinkT σ S ε (S.Ans o)) >>= fun x =>
      write f >>= fun _ => k x).run
      (ExceptT.lift (call o) >>= k').run := by
  intro s tr r s'
  show Run (.op o fun x => (k x).run.run (f s)) tr (r, s') ↔ Run (.op o fun x => (k' x).run) tr r ∧ _
  rw [run_op, run_op]
  constructor
  · rintro ⟨x, tr', rfl, h⟩
    obtain ⟨h', rfl⟩ := (hk x _ _ _ _).1 h
    exact ⟨⟨x, tr', rfl, h'⟩, by rw [written_cons, hw]⟩
  · rintro ⟨⟨x, tr', rfl, h⟩, rfl⟩
    exact ⟨x, tr', rfl, (hk x _ _ _ _).2 ⟨h, by rw [written_cons, hw]⟩⟩

/-- What is written first, and the program whose events say so. -/
theorem tracks_write_quiet {f : σ → σ} {y : ExceptT ε (Prog S) α}
    (h : ∀ tr r s, Run y.run tr r → written w tr s = f s) :
    Tracks w (write f >>= fun _ => (quiet y : SinkT σ S ε α)).run y.run := by
  intro s tr r s'
  rw [run_write]
  show Run ((quietly y.run : StateT σ (Prog S) (Except ε α)).run (f s)) tr (r, s') ↔ _
  rw [run_quietly]
  exact and_congr_right fun hrun => by rw [h tr r s hrun]

end Except

end Interact
