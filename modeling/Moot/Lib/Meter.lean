import Moot.Lib.Run
import Mathlib.Tactic

/-!
# Counters with a limit

A meter counts ticks.  When the count reaches the limit and the meter is not
stopped, it stops and raises one alarm; ticks are counted while it is stopped,
too.  It runs on only when the limit is lifted above the count or the count
starts again.

Proved here: `safe_run`, a meter that runs is below its limit, and `alarms_run`,
a run of ticks and clears raises an alarm exactly if it reaches the limit, and
raises one.
-/

structure Meter where
  count : Nat
  limit : Nat
  stopped : Bool
  alarms : Nat

/-- What happens to a meter. -/
inductive Beat
  | tick | clear | stop | lift (limit : Nat) | restart
  deriving DecidableEq

namespace Meter

def beat (m : Meter) : Beat → Meter
  | .tick =>
    if m.limit ≤ m.count + 1 ∧ m.stopped = false then
      { m with count := m.count + 1, stopped := true, alarms := m.alarms + 1 }
    else { m with count := m.count + 1 }
  | .clear => { m with count := 0 }
  | .stop => { m with stopped := true }
  | .lift limit => { m with limit := limit, stopped := false }
  | .restart => { m with count := 0, stopped := false }

/-- The meter after a list of beats. -/
def run (m : Meter) (bs : List Beat) : Meter := Run.after beat m bs

/-- A meter that runs is below its limit. -/
structure Safe (m : Meter) : Prop where
  positive : 0 < m.limit
  below : m.stopped = false → m.count < m.limit

/-- A limit is lifted above the count. -/
def Lifts (m : Meter) (b : Beat) : Prop := ∀ limit, b = .lift limit → m.count < limit

/-- The meter is at work: it counts, or starts again at the end of a session. -/
def AtWork (bs : List Beat) : Prop := ∀ b ∈ bs, b = .tick ∨ b = .clear

/-- Some tick brings the count to the limit. -/
def Reaches (m : Meter) (bs : List Beat) : Prop :=
  ∃ pre post, bs = pre ++ .tick :: post ∧ m.limit ≤ (m.run pre).count + 1

variable {m : Meter} {b : Beat} {bs : List Beat}

@[simp] theorem run_nil (m : Meter) : m.run [] = m := rfl

@[simp] theorem run_cons (m : Meter) (b : Beat) (bs : List Beat) :
    m.run (b :: bs) = (m.beat b).run bs := rfl

theorem run_append (m : Meter) (bs bs' : List Beat) : m.run (bs ++ bs') = (m.run bs).run bs' :=
  Run.after_append m bs bs'

theorem safe_beat (hm : m.Safe) (hb : m.Lifts b) : (m.beat b).Safe := by
  cases b with
  | tick =>
    simp only [beat]
    split
    · exact ⟨hm.positive, nofun⟩
    · next hguard =>
      refine ⟨hm.positive, fun hrun => ?_⟩
      have hcount : ¬ m.limit ≤ m.count + 1 := fun hle => hguard ⟨hle, hrun⟩
      exact not_le.mp hcount
  | clear => exact ⟨hm.positive, fun _ => hm.positive⟩
  | stop => exact ⟨hm.positive, nofun⟩
  | lift limit =>
    have hlt := hb limit rfl
    exact ⟨Nat.zero_lt_of_lt hlt, fun _ => hlt⟩
  | restart => exact ⟨hm.positive, fun _ => hm.positive⟩

/-- **Safety.** -/
theorem safe_run (hm : m.Safe) (hbs : Run.Always beat Lifts m bs) : (m.run bs).Safe :=
  Run.invariant (fun _ _ hm hb => safe_beat hm hb) hm hbs

/-- A meter at work lifts nothing. -/
theorem AtWork.lifts (hbs : AtWork bs) : Run.Always beat Lifts m bs := by
  induction bs generalizing m with
  | nil => trivial
  | cons b bs ih =>
    refine ⟨fun limit heq => ?_, ih fun b' hb' => hbs b' (List.mem_cons_of_mem _ hb')⟩
    rcases hbs b (List.mem_cons_self ..) with rfl | rfl
    · cases heq
    · cases heq

theorem AtWork.append {bs bs' : List Beat} (hbs : AtWork bs) (hbs' : AtWork bs') :
    AtWork (bs ++ bs') := fun b hb => (List.mem_append.mp hb).elim (hbs b) (hbs' b)

/-- At work the limit stays. -/
theorem limit_beat (hb : b = .tick ∨ b = .clear) : (m.beat b).limit = m.limit := by
  rcases hb with rfl | rfl
  · simp only [beat]
    split <;> rfl
  · rfl

/-- The first beat reaches the limit, or the rest does. -/
theorem reaches_cons (hb : b = .tick ∨ b = .clear) : m.Reaches (b :: bs) ↔
    (b = .tick ∧ m.limit ≤ m.count + 1) ∨ (m.beat b).Reaches bs := by
  constructor
  · rintro ⟨pre, post, heq, hle⟩
    cases pre with
    | nil =>
      rw [List.nil_append, List.cons.injEq] at heq
      exact Or.inl ⟨heq.1, hle⟩
    | cons b' pre =>
      rw [List.cons_append, List.cons.injEq] at heq
      obtain ⟨rfl, rfl⟩ := heq
      exact Or.inr ⟨pre, post, rfl, by rw [limit_beat hb]; exact hle⟩
  · rintro (⟨rfl, hle⟩ | ⟨pre, post, rfl, hle⟩)
    · exact ⟨[], bs, rfl, hle⟩
    · exact ⟨b :: pre, post, rfl, by rw [limit_beat hb] at hle; exact hle⟩

/-- A stopped meter raises no alarm at work, and stays stopped. -/
theorem stopped_run (hbs : AtWork bs) (hm : m.stopped = true) :
    (m.run bs).stopped = true ∧ (m.run bs).alarms = m.alarms := by
  induction bs generalizing m with
  | nil => exact ⟨hm, rfl⟩
  | cons b bs ih =>
    have hone : (m.beat b).stopped = true ∧ (m.beat b).alarms = m.alarms := by
      rcases hbs b (List.mem_cons_self ..) with rfl | rfl
      · simp [beat, hm]
      · exact ⟨hm, rfl⟩
    obtain ⟨hstop, halarm⟩ := ih (fun b' hb' => hbs b' (List.mem_cons_of_mem _ hb')) hone.1
    exact ⟨hstop, halarm.trans hone.2⟩

/-- **One alarm.**  A meter that runs is stopped at work, with one alarm, exactly if the run reaches
the limit. -/
theorem alarms_run (hbs : AtWork bs) (hm : m.stopped = false) :
    (m.Reaches bs → (m.run bs).stopped = true ∧ (m.run bs).alarms = m.alarms + 1) ∧
      (¬ m.Reaches bs → (m.run bs).stopped = false ∧ (m.run bs).alarms = m.alarms) := by
  induction bs generalizing m with
  | nil =>
    refine ⟨fun ⟨pre, post, heq, _⟩ => ?_, fun _ => ⟨hm, rfl⟩⟩
    simp at heq
  | cons b bs ih =>
    have hb := hbs b (List.mem_cons_self ..)
    have hrest : AtWork bs := fun b' hb' => hbs b' (List.mem_cons_of_mem _ hb')
    rw [reaches_cons hb, run_cons]
    by_cases hat : b = .tick ∧ m.limit ≤ m.count + 1
    · obtain ⟨rfl, hle⟩ := hat
      have hbeat : (m.beat .tick).stopped = true ∧ (m.beat .tick).alarms = m.alarms + 1 := by
        rw [beat, if_pos ⟨hle, hm⟩]
        exact ⟨rfl, rfl⟩
      obtain ⟨hstop, halarm⟩ := stopped_run hrest hbeat.1
      exact ⟨fun _ => ⟨hstop, halarm.trans hbeat.2⟩, fun hnot => absurd (Or.inl ⟨rfl, hle⟩) hnot⟩
    · have hbeat : (m.beat b).stopped = false ∧ (m.beat b).alarms = m.alarms := by
        rcases hb with rfl | rfl
        · have hguard : ¬ (m.limit ≤ m.count + 1 ∧ m.stopped = false) := fun hg => hat ⟨rfl, hg.1⟩
          rw [beat, if_neg hguard]
          exact ⟨hm, rfl⟩
        · exact ⟨hm, rfl⟩
      have hih := ih hrest hbeat.1
      rw [hbeat.2] at hih
      exact ⟨fun hr => hih.1 (hr.resolve_left hat), fun hnot => hih.2 fun hr => hnot (Or.inr hr)⟩

/-- At work a tick counts at most once. -/
theorem count_run_le (hbs : AtWork bs) : (m.run bs).count ≤ m.count + bs.count .tick := by
  induction bs generalizing m with
  | nil => exact le_rfl
  | cons b bs ih =>
    have hrest : AtWork bs := fun b' hb' => hbs b' (List.mem_cons_of_mem _ hb')
    rw [run_cons, List.count_cons]
    refine (ih hrest).trans ?_
    rcases hbs b (List.mem_cons_self ..) with rfl | rfl
    · have hone : (m.beat .tick).count = m.count + 1 := by
        simp only [beat]
        split <;> rfl
      rw [hone, if_pos (by decide)]
      omega
    · have hnone : (m.beat .clear).count = 0 := rfl
      rw [hnone]
      omega

/-- At work the count does not depend on the limit: it is the number of ticks since it was last
cleared. -/
theorem count_run (hbs : AtWork bs) (hnone : .clear ∉ bs) :
    (m.run bs).count = m.count + bs.length := by
  induction bs generalizing m with
  | nil => rfl
  | cons b bs ih =>
    have hb : b = .tick := (hbs b (List.mem_cons_self ..)).resolve_right fun heq =>
      hnone (heq ▸ List.mem_cons_self ..)
    subst hb
    have hone : (m.beat .tick).count = m.count + 1 := by
      simp only [beat]
      split <;> rfl
    rw [run_cons, ih (fun b' hb' => hbs b' (List.mem_cons_of_mem _ hb'))
      (fun hmem => hnone (List.mem_cons_of_mem _ hmem)), hone, List.length_cons]
    omega

end Meter
