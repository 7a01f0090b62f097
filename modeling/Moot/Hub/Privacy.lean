import Moot.Hub.Reseed

/-!
# Private messages

A private message is handed to its addressee and to the observers.  The flag goes
from the say into the routed copies, the recent window, the transcript and, over a
restart, back into the window; the filter stands at the routing and at the backlog.

Proved here: `private_reaches_addressee`.
-/

namespace Moot
open Py PyJson Proto Hub

/-- The message is public, or is for `n`. -/
def MayRead (n : Str) (m : Msg) : Prop := m.priv = true → m.addressee = n

namespace Hub

section
variable {env : Env} {h h' h'' : Hub} {n : Str}

/-! ## What is put in -/

/-- A say that is private has a name for its recipient. -/
theorem private_ne_everyone {f : Say} (hpriv : f.priv = true) : f.addressee ≠ everyone :=
  fun heq => f.named ⟨hpriv, heq⟩

theorem mayRead_copiesFor {msg m : Msg} {q : Participant}
    (hnamed : msg.priv = true → msg.addressee ≠ everyone) (hm : m ∈ copiesFor msg q) :
    MayRead q.name m := by
  unfold copiesFor at hm
  simp only at hm
  split at hm
  · cases hm
  · split at hm
    · split at hm
      · cases hm
      · next hpublic =>
        rw [List.mem_singleton.mp hm]
        exact fun hpriv => absurd hpriv hpublic
    · next hmode =>
      rw [List.mem_singleton.mp hm]
      intro hpriv
      by_contra hother
      apply hmode
      have hother : msg.addressee ≠ q.name := hother
      rw [Participant.addressing, if_neg hother, if_neg (hnamed hpriv)]

theorem mayRead_copies (hn : h.Named) {msg m : Msg}
    (hnamed : msg.priv = true → msg.addressee ≠ everyone) (hm : m ∈ h.copies msg n) :
    MayRead n m := by
  unfold copies at hm
  split at hm
  · cases hm
  · next q hq =>
    rw [← hn n q hq]
    exact mayRead_copiesFor hnamed hm

theorem mayRead_notesFor {text : Str} {ns : List Str} {m : Msg} (hm : m ∈ h.notesFor text ns n) :
    MayRead n m := by
  unfold notesFor at hm
  split at hm
  · rw [List.mem_singleton.mp hm]
    exact nofun
  · cases hm

/-- The copies an operation creates for a name may be read under it. -/
theorem mayRead_prescribed {F : Type} [PyFloat F] (hw : h.Wf) {op : Op F} {m : Msg}
    (hm : m ∈ prescribed env h op n) : MayRead n m := by
  cases op with
  | handle c frame =>
    simp only [prescribed] at hm
    split at hm
    · cases hm
    · next f hv =>
      have hlife : Keeps ∅ ∅ True h (h.lifeSign (h.wire.clients c).name) := keeps_lifeSign h _
      cases f with
      | say f =>
        simp only [frameCopies, saidCopies] at hm
        split at hm
        · cases hm
        · split at hm
          · exact mayRead_copies (hlife.named hw.named) private_ne_everyone hm
          · cases hm
      | cmd cmd seq =>
        simp only [frameCopies, cmdCopies] at hm
        split at hm
        · cases hm
        · split at hm
          · cases cmd with
            | mute => exact mayRead_notesFor hm
            | unmute => exact mayRead_notesFor hm
            | goal text ok =>
              simp only [commandCopies, goalLine] at hm
              split at hm
              · rw [List.mem_singleton.mp hm]
                intro hpriv
                cases hpriv
              · cases hm
            | _ => cases hm
          · cases hm
      | _ => cases hm
  | _ => cases hm

theorem mayRead_backlog {recent : List MsgRec} {m : Msg} (hm : m ∈ overheardBacklog env n recent) :
    MayRead n m := by
  obtain ⟨m₀, hm₀, rfl⟩ := List.mem_map.mp hm
  obtain ⟨r, hr, rfl⟩ := List.mem_map.mp hm₀
  have hvisible := (lastN_suffix _ _).subset (List.mem_filter.mp hr).1
  have hmay := (List.mem_filter.mp hvisible).2
  intro hpriv
  have hpriv : r.priv = true := hpriv
  have haddr : r.addressee = n := by simpa [hpriv] using hmay
  exact haddr

/-- **The slots of a backlog** are filled from what may be read alone. -/
theorem backlog_readable (n : Str) (recent : List MsgRec) :
    backlog env n false (recent.filter fun r => !r.priv || r.addressee = n) =
      backlog env n false recent := by
  have hsame : visible n false (recent.filter fun r => !r.priv || r.addressee = n) =
      visible n false recent := by
    unfold visible
    rw [List.filter_filter]
    congr 1
    funext r
    cases r.priv <;> simp
  rw [backlog, hsame]
  rfl

/-! ## A private say between others -/

/-- The mail under `n` is as it was, and `n` was handed nothing. -/
structure Passed (n : Str) (h h' : Hub) : Prop where
  mail : ∀ q, h.box? n = some q → ∃ q', h'.box? n = some q' ∧ q'.mail = q.mail
  delivered : deliveries n h'.wire.log = deliveries n h.wire.log

theorem Passed.trans (hab : Passed n h h') (hbc : Passed n h' h'') : Passed n h h'' := by
  constructor
  · intro q hq
    obtain ⟨q₁, hq₁, hmail₁⟩ := hab.mail q hq
    obtain ⟨q₂, hq₂, hmail₂⟩ := hbc.mail q₁ hq₁
    exact ⟨q₂, hq₂, hmail₂.trans hmail₁⟩
  · exact hbc.delivered.trans hab.delivered

theorem Still.passed (hs : Still n h h') : Passed n h h' := by
  constructor
  · intro q hq
    obtain ⟨q', hq', -, -, hmail⟩ := hs.same q hq
    exact ⟨q', hq', hmail⟩
  · exact hs.delivered

theorem Keeps.passed {E : Prop} (hk : Keeps ∅ ∅ E h h') : Passed n h h' := hk.quietStill.passed

/-- Who is registered keeps its registration, so only the live ones have to be looked at. -/
theorem passed_of_live (hr : h.Roster h') (hmail : ∀ q, h.get? n = some q →
      ∃ q', h'.get? n = some q' ∧ q'.mail = q.mail)
    (hdel : deliveries n h'.wire.log = deliveries n h.wire.log) : Passed n h h' := by
  refine ⟨?_, hdel⟩
  intro q hq
  cases hlive : h.get? n with
  | none =>
    rw [box?_of_none hlive] at hq
    exact ⟨q, by rw [box?_of_none (hr.none hlive), hr.dead]; exact hq, rfl⟩
  | some p =>
    rw [box?_of_get? hlive, Option.some.injEq] at hq
    subst hq
    obtain ⟨q', hq', hmail'⟩ := hmail p hlive
    exact ⟨q', box?_of_get? hq', hmail'⟩

theorem passed_remember (h : Hub) (p : Participant) (f : Say) :
    Passed n h (h.remember env p f) := by
  apply passed_of_live (roster_remember env h p f)
  · intro q hq
    obtain ⟨q', hq', hcalm, -⟩ := get?_remember env p f hq
    exact ⟨q', hq', hcalm.mail⟩
  · exact deliveries_remember env h p f n

/-- An agent that is not addressed has no part in the routing of a private message. -/
theorem routeActs_private {up : ClientId → Bool} {msg : Msg} {q : Participant}
    (hpriv : msg.priv = true) (hother : msg.addressee ≠ q.name) (hnamed : msg.addressee ≠ everyone) :
    routeActs up msg q = [] := by
  have hmode : q.addressing msg.addressee = .overheard := by
    rw [Participant.addressing, if_neg hother, if_neg hnamed]
  unfold routeActs
  simp only [hmode, hpriv, if_true, ite_self]

theorem passed_route (hn : h.Named) {msg : Msg} (hpriv : msg.priv = true)
    (hother : msg.addressee ≠ n) (hnamed : msg.addressee ≠ everyone)
    (hagent : ∀ q, h.get? n = some q → q.isObserver = false) : Passed n h (h.route env msg).1 := by
  have hk := keeps_route env (E := True) hn msg
  have hacts : ∀ q, h.get? n = some q → routeActs h.up msg q = [] := by
    intro q hq
    apply routeActs_private hpriv _ hnamed
    rw [hn n q hq]
    exact hother
  apply passed_of_live hk.toRoster
  · intro q hq
    obtain ⟨q', hq', -, hmail, -⟩ := (route_spec env hn msg hq).get?
    refine ⟨q', hq', ?_⟩
    rw [hmail, mail_routeOne, hacts q hq]
    rfl
  · cases hq : h.get? n with
    | none => exact hk.delivered n fun hmem => hmem hq
    | some q =>
      rw [(route_spec env hn msg hq).delivered, frames_routeOne env h.up msg (hagent q hq),
        hacts q hq, Mail.playFrames_nil, List.append_nil]

theorem passed_routeSay (hn : h.Named) {m : Str} {f : Say} (hpriv : f.priv = true)
    (hother : f.addressee ≠ n) (hagent : ∀ q, h.get? n = some q → q.isObserver = false) :
    Passed n h (h.routeSay env m f).2 := by
  cases hp : h.get? m with
  | none =>
    rw [routeSay, hp]
    exact (Keeps.refl (S := ∅) (T := ∅) (E := True) h).passed
  | some p =>
    obtain ⟨h₀, hc, heq | ⟨code, detail, retry, heq⟩⟩ := routeSay_cases env hp f
    · have hcharged : Keeps ∅ ∅ False h h₀ := hc.keeps
      have hn₀ := hcharged.named hn
      have hrem := roster_remember env h₀ p f
      have hagent' : ∀ q, (h₀.remember env p f).get? n = some q → q.isObserver = false := by
        intro q hq
        obtain ⟨q₀, hq₀, hsame₀⟩ := hrem.back hq
        obtain ⟨q₁, hq₁, hsame₁⟩ := hcharged.back hq₀
        rw [hsame₀.isObserver, hsame₁.isObserver]
        exact hagent q₁ hq₁
      have hroute : Passed n _ ((h₀.remember env p f).route env (h₀.sayMsg p f)).1 :=
        passed_route (hrem.named hn₀) hpriv hother (private_ne_everyone hpriv) hagent'
      have hanswer : Keeps ∅ ∅ False ((h₀.remember env p f).route env (h₀.sayMsg p f)).1 _ :=
        keeps_answer env _ p f (h₀.msgCounter + 1)
          ((h₀.remember env p f).route env (h₀.sayMsg p f)).2
      rw [heq]
      exact hcharged.passed.trans ((passed_remember h₀ p f).trans (hroute.trans hanswer.passed))
    · have hcharged : Keeps ∅ ∅ False h h₀ := hc.keeps
      rw [heq]
      exact (hcharged.trans (keeps_refuse env h₀ p f code detail retry)).passed

/-- **A private say between others** leaves the mail of an agent as it is. -/
theorem passed_private {F : Type} [PyFloat F] (hw : h.Wf) {c : ClientId} {frame : Obj F} {f : Say}
    (hv : validate env.isPrintable frame = .ok (.say f)) (hpriv : f.priv = true)
    (hother : f.addressee ≠ n) (hsender : (h.wire.clients c).name ≠ n)
    (hagent : ∀ q, h.get? n = some q → q.isObserver = false) :
    Passed n h (h.step env (.handle c frame)) := by
  obtain ⟨f', hv', heq⟩ := (handle_cases env h c frame).resolve_left
    fun ⟨e, he, _⟩ => by rw [hv] at he; cases he
  rw [hv, Except.ok.injEq] at hv'
  subst hv'
  show Passed n h (h.handle env c frame)
  rw [heq]
  show Passed n h (h.dispatch env c (.say f))
  generalize hm : (h.wire.clients c).name = m at hsender
  unfold dispatch
  simp only [hm]
  split
  · exact ((quiet_errRaw env h c _ _ _).keeps (S := ∅) (T := ∅) (E := True)).passed
  · have hlife : Keeps ∅ ∅ True h (h.lifeSign m) := keeps_lifeSign h m
    have hagent' : ∀ q, (h.lifeSign m).get? n = some q → q.isObserver = false := by
      intro q hq
      obtain ⟨q₀, hq₀, hsame⟩ := hlife.back hq
      rw [hsame.isObserver]
      exact hagent q₀ hq₀
    have hn := hlife.named hw.named
    have hsay : Passed n _ ((h.lifeSign m).routeSay env m f).2 :=
      passed_routeSay hn hpriv hother hagent'
    have hsettle := keeps_settle env ((roster_routeSay env hn m f).named hn) m f
      ((h.lifeSign m).routeSay env m f).1
    have hapart : n ∉ ({m} : Set Str) := fun hmem => hsender (Set.mem_singleton_iff.mp hmem).symm
    exact hlife.passed.trans (hsay.trans (hsettle.still hapart hapart).passed)

end

end Hub

/-! ## Runs -/

section
variable {F : Type} [PyFloat F] {site : Site F} {env : Env}

/-- The mail under a name may be read under it. -/
def Confined (h : Hub) : Prop := ∀ n q, h.box? n = some q → q.mail.All (MayRead n)

theorem mayRead_notes (n m : Str) (k : Nat) :
    MayRead n (omittedNote k) ∧ MayRead n (droppedNote m k) := ⟨nofun, nofun⟩

/-- **One operation**: the mail under a name and the frames to an agent may be read under the name. -/
theorem confined_op {h : Hub} (hr : h.Ready) (hc : Confined h) (op : Op F) {n : Str}
    {q : Participant} (hq : (h.step env op).box? n = some q) :
    q.mail.All (MayRead n) ∧
      (q.isObserver = false → ∀ f ∈ newFrames n h (h.step env op), ∀ m ∈ f, MayRead n m) := by
  obtain ⟨b, as, hm⟩ := mailed hr op hq
  have hb : b.All (MayRead n) := by
    rcases hm.before with ⟨q₀, hq₀, rfl⟩ | rfl
    · exact hc n q₀ hq₀
    · exact fun m hmem => nomatch hmem
  have hin : ∀ m ∈ as.flatMap Act.msgs, MayRead n m := by
    intro m hmem
    rcases hm.source m hmem with hcopy | hline
    · exact mayRead_prescribed hr.wf hcopy
    · exact mayRead_backlog hline
  obtain ⟨hkept, hframes⟩ := All.play env.config hb (fun k => (mayRead_notes n n k).1)
    (fun k => (mayRead_notes n b.owner k).2) as hin
  rw [hm.mail]
  exact ⟨hkept, fun hobs => by rw [hm.frames hobs]; exact hframes⟩

variable (F env) in
/-- What is private stays between its addressee and the observers, and nothing is private that was
not said in private. -/
structure Discreet (w : World) : Prop where
  kept : ∀ n q, w.hub.box? n = some q →
    ∀ m ∈ q.queue ++ q.context.items, m.priv = true → m.addressee = n
  handed : ∀ (op : Op F) n,
    (∀ q, (w.hub.step env op).box? n = some q → q.isObserver = false) →
      ∀ f ∈ newFrames n w.hub (w.hub.step env op), ∀ m ∈ f, m.priv = true → m.addressee = n
  slots : ∀ n, backlog env n false (w.hub.recent.filter fun r => !r.priv || r.addressee = n) =
    backlog env n false w.hub.recent
  passes : ∀ c (frame : Obj F) f n, validate env.isPrintable frame = .ok (.say f) →
    f.priv = true → f.addressee ≠ n → (w.hub.wire.clients c).name ≠ n →
      (∀ q, w.hub.get? n = some q → q.isObserver = false) →
        Passed n w.hub (w.hub.step env (.handle c frame))
  copied : ∀ n, (∀ q, w.hub.box? n = some q → ∀ m ∈ q.queue ++ q.context.items,
      m.sender = systemSender ∨ recordOf m ∈ w.known) ∧
    ∀ f ∈ deliveries n w.hub.wire.log, ∀ m ∈ f, m.sender = systemSender ∨ recordOf m ∈ w.known
  flagged : ∀ (op : Op F), ∀ r ∈ acceptedSays env w.hub op, ∃ c frame f,
    op = .handle c frame ∧ validate env.isPrintable frame = .ok (.say f) ∧
      r.priv = f.priv ∧ r.addressee = f.addressee

/-- What lifetimes keep. -/
structure Guarded (w : World) : Prop where
  ready : w.hub.Ready
  attributed : Attributed w
  confined : Confined w.hub

theorem guarded_first (now wall : Rat) : Guarded (World.first env now wall) :=
  ⟨ready_init [] now wall, carries_init (fun _ hr => (nomatch hr)) now wall,
    fun _ _ hq => nomatch hq⟩

theorem Guarded.step {w : World} (hw : Guarded w) (e : Event F) :
    Guarded (w.step site env e) := by
  have hattributed : Attributed (w.step site env e) := hw.attributed.step hw.ready.wf e
  cases e with
  | op op =>
    exact ⟨hw.ready.step op, hattributed, fun n q hq => (confined_op hw.ready hw.confined op hq).1⟩
  | restart now wall =>
    refine ⟨?_, hattributed, ?_⟩
    · rw [step_restart]
      exact ready_init _ now wall
    · rw [step_restart]
      exact fun n q hq => nomatch hq

/-- **Private messages reach only their addressee and the observers.**  Over any lifetimes on one
directory, what is kept for a name or handed to an agent is public or addressed to it; what is
private between others takes no slot of its backlog and leaves its mail as it is; and a copy bears
the flag with which its message was accepted. -/
theorem private_reaches_addressee (site : Site F) (env : Env) (now wall : Rat)
    (es : List (Event F)) :
    Discreet F env (Run.after (World.step site env) (World.first env now wall) es) := by
  generalize hw : Run.after (World.step site env) (World.first env now wall) es = w
  have hguarded : Guarded w := by
    rw [← hw]
    exact Run.preserved (fun w e hw => hw.step e) (guarded_first now wall) es
  constructor
  · exact fun n q hq => hguarded.confined n q hq
  · intro op n hagent
    cases hbox : (w.hub.step env op).box? n with
    | none =>
      rw [newFrames_absent hguarded.ready op hbox]
      exact fun f hf => nomatch hf
    | some q => exact (confined_op hguarded.ready hguarded.confined op hbox).2 (hagent q hbox)
  · exact fun n => backlog_readable n w.hub.recent
  · intro c frame f n hv hpriv hother hsender hagent
    exact passed_private hguarded.ready.wf hv hpriv hother hsender hagent
  · exact fun n => ⟨fun q hq => hguarded.attributed.mail n q hq, hguarded.attributed.frames n⟩
  · intro op r hr
    obtain ⟨c, frame, f, p, rfl, hv, -, rfl⟩ := mem_acceptedSays hr
    exact ⟨c, frame, f, rfl, hv, rfl, rfl⟩

end

end Moot
