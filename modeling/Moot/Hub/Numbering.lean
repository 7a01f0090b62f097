import Moot.Hub.Lifetimes
import Moot.Hub.Ownership
import Moot.Hub.Cargo

/-!
# The numbers of the messages

A hub counts on from the highest id it finds in the files of yesterday and today.  If
it starts on the day of the last message or on the next, the last message is in them,
and has the highest id of all.

Proved here: `ids_never_repeat`.
-/

namespace Moot
open Py PyJson Proto Hub

section
variable {F : Type} [PyFloat F] {site : Site F} {env : Env}

/-! ## The written messages -/

theorem messagesAt_append (l l' : List Effect) :
    messagesAt (l ++ l') = messagesAt l ++ messagesAt l' := by
  rw [messagesAt, saidAt_append, List.filter_append]
  rfl

theorem messages_append (l l' : List Effect) : messages (l ++ l') = messages l ++ messages l' := by
  rw [messages, messagesAt_append, List.map_append]
  rfl

theorem messages_sublist (log : List Effect) : (messages log).Sublist (said log) := by
  rw [messages, messagesAt, said_eq_map]
  exact List.filter_sublist.map _

/-- What the files hold of the hubs before, and what this hub has accepted. -/
def World.known (w : World) : List MsgRec := messages w.past ++ said w.hub.wire.log

theorem World.messages_sublist (w : World) : (messages w.log).Sublist w.known := by
  rw [World.log, messages_append]
  exact (List.Sublist.refl _).append (Moot.messages_sublist _)

/-- **What an operation adds** to the messages. -/
theorem messages_op {w : World} (hw : w.hub.Wf) (op : Op F) :
    messages (w.step site env (.op op)).log = messages w.log ++
      (acceptedSays env w.hub op).filter fun r => r.Encodes := by
  have hsaid := (remembers_step env hw op).said
  show messages (w.past ++ (w.hub.step env op).wire.log) = messages (w.past ++ w.hub.wire.log) ++ _
  rw [messages_append, messages_append, List.append_assoc]
  congr 1
  rw [messages, messagesAt, hsaid, List.filter_append, List.map_append, List.filter_map, List.map_map]
  exact congrArg _ (List.map_id _)

theorem known_op {w : World} (hw : w.hub.Wf) (op : Op F) :
    (w.step site env (.op op)).known = w.known ++ acceptedSays env w.hub op := by
  have hsaid := (remembers_step env hw op).said
  show messages w.past ++ said (w.hub.step env op).wire.log = _
  rw [said_eq_map, hsaid, List.map_append, ← said_eq_map, List.map_map, World.known,
    List.append_assoc]
  congr 2
  exact List.map_id _

theorem known_restart (w : World) (now wall : Rat) :
    (w.step site env (.restart now wall)).known = messages w.log := by
  rw [step_restart]
  exact List.append_nil _

/-! ## The counter -/

/-- The new hub starts on the day of the last message or on the next. -/
def Near (site : Site F) (w : World) (e : Event F) : Prop :=
  ∀ now wall, e = .restart now wall → ∀ last, (messagesAt w.log).getLast? = some last →
    site.day wall = site.day last.1 ∨ site.day wall = site.day last.1 + 1

/-- The messages are in the order of their ids, and these are taken. -/
structure Numbered (w : World) : Prop where
  ready : w.hub.Ready
  ascending : (w.known.map MsgRec.id).Pairwise (· < ·)
  taken : ∀ r ∈ w.known, r.id ≤ w.hub.msgCounter
  recent : ∀ r ∈ w.hub.recent, r ∈ w.known

theorem numbered_first (now wall : Rat) : Numbered (World.first env now wall) := by
  refine ⟨ready_init [] now wall, .nil, fun _ hr => (nomatch hr), fun r hr => ?_⟩
  exact absurd ((lastN_suffix _ _).subset hr) List.not_mem_nil

theorem Numbered.op {w : World} (hw : Numbered w) (op : Op F) :
    Numbered (w.step site env (.op op)) := by
  have hrem := remembers_step env hw.ready.wf op
  have hknown : (w.step site env (.op op)).known = _ := known_op hw.ready.wf op
  refine ⟨hw.ready.step op, ?_, fun r hr => ?_, fun r hr => ?_⟩
  · rw [hknown, List.map_append]
    refine List.pairwise_append.mpr ⟨hw.ascending, hrem.ordered, fun i hi j hj => ?_⟩
    obtain ⟨r, hr, rfl⟩ := List.mem_map.mp hi
    obtain ⟨r', hr', rfl⟩ := List.mem_map.mp hj
    exact Nat.lt_of_le_of_lt (hw.taken r hr) (hrem.fresh r' hr').1
  · rw [hknown] at hr
    rcases List.mem_append.mp hr with hr | hr
    · exact (hw.taken r hr).trans hrem.counter
    · exact (hrem.fresh r hr).2
  · rw [hknown]
    have hrecent : r ∈ recentAfter env w.hub.recent (acceptedSays env w.hub op) := by
      rw [← hrem.recent]
      exact hr
    rcases mem_recentAfter env hrecent with hr | hr
    · exact List.mem_append_left _ (hw.recent r hr)
    · exact List.mem_append_right _ hr

/-- The last of the messages has the highest id. -/
theorem le_last {es : List (Rat × MsgRec)} {last : Rat × MsgRec}
    (hasc : ((es.map Prod.snd).map MsgRec.id).Pairwise (· < ·)) (hlast : es.getLast? = some last) :
    ∀ e ∈ es, e.2.id ≤ last.2.id := by
  obtain ⟨before, rfl⟩ := List.getLast?_eq_some_iff.mp hlast
  intro e he
  rw [List.map_append, List.map_append, List.pairwise_append] at hasc
  rcases List.mem_append.mp he with he | he
  · exact (hasc.2.2 e.2.id (List.mem_map_of_mem (List.mem_map_of_mem he)) last.2.id
      (by simp)).le
  · rw [List.mem_singleton.mp he]

theorem Numbered.messages {w : World} (hw : Numbered w) :
    ((messages w.log).map MsgRec.id).Pairwise (· < ·) :=
  hw.ascending.sublist (w.messages_sublist.map _)

omit [PyFloat F] in
/-- What a start reads has been written. -/
theorem mem_messages {w : World} {wall : Rat} {r : MsgRec}
    (hr : r ∈ messagesOn site (saidAt w.log) (site.day wall - 1) ++
      messagesOn site (saidAt w.log) (site.day wall)) : r ∈ messages w.log := by
  rw [messagesOn_eq_filter, messagesOn_eq_filter] at hr
  rcases List.mem_append.mp hr with hr | hr
  · exact (List.filter_sublist.map Prod.snd).subset hr
  · exact (List.filter_sublist.map Prod.snd).subset hr

theorem Numbered.restart {w : World} (hw : Numbered w) {now wall : Rat}
    (hnear : Near site w (.restart now wall)) :
    Numbered (w.step site env (.restart now wall)) := by
  refine ⟨?_, ?_, ?_, ?_⟩
  · rw [step_restart]
    exact ready_init _ now wall
  · rw [known_restart]
    exact hw.messages
  rotate_left
  · rw [known_restart, step_restart]
    exact fun r hr => mem_messages ((lastN_suffix _ _).subset hr)
  rw [known_restart, step_restart]
  intro r hr
  obtain ⟨e, he, rfl⟩ := List.mem_map.mp hr
  cases hlast : (messagesAt w.log).getLast? with
  | none =>
    rw [List.getLast?_eq_none_iff.mp hlast] at he
    cases he
  | some last =>
    refine (le_last hw.messages hlast e he).trans (le_foldr_max (List.mem_map_of_mem ?_))
    have hmem := List.mem_of_getLast? hlast
    rw [messagesOn_eq_filter, messagesOn_eq_filter]
    rcases hnear now wall rfl last hlast with hday | hday
    · refine List.mem_append_right _ (List.mem_map_of_mem (List.mem_filter.mpr ⟨hmem, ?_⟩))
      simp [hday]
    · refine List.mem_append_left _ (List.mem_map_of_mem (List.mem_filter.mpr ⟨hmem, ?_⟩))
      simp [hday]

theorem Numbered.step {w : World} (hw : Numbered w) {e : Event F} (he : Near site w e) :
    Numbered (w.step site env e) := by
  cases e with
  | op op => exact hw.op op
  | restart now wall => exact hw.restart he

/-! ## The answer -/

/-- The effects of an operation. -/
def newEffects (h h' : Hub) : List Effect := h'.wire.log.drop h.wire.log.length

/-- The sender of `r` is told its id, in the answer to the frame that it sent. -/
def Answers (env : Env) (h : Hub) (op : Op F) (r : MsgRec) : Prop :=
  ∃ c frame f client up queued, op = .handle c frame ∧
    validate env.isPrintable frame = .ok (.say f) ∧
    .send r.sender client up (.said r.id queued f.seq) ∈ newEffects h (h.step env op)

theorem mem_newEffects {h x h' : Hub} {e : Effect} (hle : h.wire.Le x.wire)
    (hsent : (x.wire.effect e).Le h'.wire) : e ∈ newEffects h h' := by
  obtain ⟨fs, hfs⟩ := hle.log
  obtain ⟨gs, hgs⟩ := hsent.log
  have heq : h'.wire.log = h.wire.log ++ (fs ++ e :: gs) := by
    rw [← hgs, Wire.effect, ← hfs]
    simp
  rw [newEffects, heq, List.drop_left]
  simp

theorem le_effect (h : Hub) (p : Participant) (f : Frame) :
    (h.wire.effect (.send p.name p.client (h.wire.clients p.client).connected f)).Le
      (h.send env p f).wire := by
  refine ⟨fun _ => rfl, fun c hc => ?_, List.prefix_refl _⟩
  simp only [Hub.send, Hub.setWire, Wire.send, Wire.tick, Bool.and_eq_true] at hc
  exact hc.1

theorem said_routeSay {h : Hub} (hn : h.Named) {n : Str} {p : Participant} (hp : h.get? n = some p)
    {f : Say} (hok : (h.routeSay env n f).1 = true) :
    ∃ x up queued, h.wire.Le x ∧
      (x.effect (.send p.name p.client up (.said (h.msgCounter + 1) queued f.seq))).Le
        (h.routeSay env n f).2.wire := by
  obtain ⟨k, hc, heq | ⟨code, detail, retry, heq⟩⟩ := routeSay_cases env hp f
  · have hcount : k.msgCounter = h.msgCounter := by cases hc <;> rfl
    have hcharged : Keeps ∅ ∅ False h k := hc.keeps
    have hrem := hcharged.toRoster.trans (roster_remember env k p f)
    have hroute := hrem.trans (keeps_route env (E := False) (hrem.named hn) (k.sayMsg p f)).toRoster
    rw [heq, ← hcount]
    exact ⟨_, _, _, hroute.wire, (le_effect _ p _).trans (le_answer env _ p f _ _)⟩
  · rw [heq] at hok
    cases hok

/-- **Every accepted say is answered with its id.** -/
theorem answers {h : Hub} (hw : h.Wf) {op : Op F} {r : MsgRec} (hr : r ∈ acceptedSays env h op) :
    Answers env h op r := by
  cases op with
  | handle c frame =>
    simp only [acceptedSays] at hr
    split at hr
    · next f hv =>
      generalize hname : (h.wire.clients c).name = n at hr
      have hlife : Keeps ∅ ∅ True h (h.lifeSign n) := keeps_lifeSign h n
      unfold acceptedOf at hr
      split at hr
      · cases hr
      · next p hp =>
        split at hr
        · next hok =>
          rw [List.mem_singleton] at hr
          subst hr
          have hn := hlife.named hw.named
          obtain ⟨x, up, queued, hle, hsent⟩ := said_routeSay hn hp hok
          have hsettle := (keeps_settle env ((roster_routeSay env hn n f).named hn) n f true).wire
          have hstep : h.step env (.handle c frame) =
              ((h.lifeSign n).routeSay env n f).2.settle env n f true := by
            have hthere : h.get? n ≠ none := fun hnone => by
              rw [hlife.toRoster.none hnone] at hp
              cases hp
            obtain ⟨q, hq⟩ := Option.ne_none_iff_exists'.mp hthere
            show h.handle env c frame = _
            rw [handle, hv]
            show h.dispatch env c (.say f) = _
            rw [dispatch, hname, hq]
            show (h.lifeSign n).handleSay env n f = _
            rw [handleSay, hok]
          refine ⟨c, frame, f, p.client, up, queued, rfl, hv, ?_⟩
          rw [hstep]
          exact mem_newEffects (x := h.setWire x) (hlife.wire.trans hle) (hsent.trans hsettle)
        · cases hr
    · cases hr
  | _ => simp only [acceptedSays, List.not_mem_nil] at hr

/-! ## The copies -/

theorem Hub.Stroke.log {A : Filter} {h h' : Hub} (hw : h.Wf) (hs : Stroke env A Set.univ h h') :
    h.wire.log <+: h'.wire.log := by
  have hk : ∀ {S T : Set Str} {k : Hub}, Keeps S T True h k → h.wire.log <+: k.wire.log :=
    fun hk => hk.wire.log
  cases hs with
  | talk ht => exact hk (S := ∅) (T := ∅) ht.toQuiet.keeps
  | aside ha => exact hk (S := ∅) (T := ∅) ha.keeps
  | event e skip => exact hk (S := ∅) (T := ∅) (keeps_emitEvent env h e skip (Or.inl trivial))
  | declared room => exact hk (S := ∅) (T := ∅) (keeps_append h _ rfl (Or.inl trivial))
  | touched => exact List.prefix_refl _
  | reported => exact List.prefix_refl _
  | inferred => exact List.prefix_refl _
  | flushed => exact hk (keeps_flushQueue env hw.named _)
  | @accepted n p q f =>
    have hrem := roster_remember env h p f
    exact (hrem.trans (keeps_route env (E := True) (hrem.named hw.named) _).toRoster).wire.log
  | wentOn => exact List.prefix_refl _
  | finished => exact hk (S := ∅) (T := ∅) (keeps_markDone env h _)
  | commanded => exact (roster_flags h _).wire.log
  | noted m => exact hk (keeps_systemNote env hw.named _ m)
  | goalTold => exact hk (keeps_bufferGoal h _)
  | left hp =>
    exact (le_leave env h _ _).log.trans
      (keeps_checkSessionDone (S := ∅) (T := ∅) env _).wire.log
  | enrolled => exact List.prefix_refl _
  | caughtUp => exact hk (keeps_giveBacklog env hw.named _)

/-- The hub's own, or a copy of a message in `S`. -/
def Known (S : List MsgRec) (m : Msg) : Prop := m.sender = systemSender ∨ recordOf m ∈ S

/-- No say. -/
def noSay : Filter := fun _ _ f => ∀ g, f ≠ .say g

theorem sources_known (S : List MsgRec) : Sources noSay (fun _ => True) (Known S) where
  hello _ _ := trivial
  tagged _ _ h := h
  recorded _ h := h
  said _ _ _ _ hA := absurd rfl (hA _)
  goal _ _ _ _ _ _ _ := Or.inl rfl
  note _ _ _ _ _ _ := Or.inl rfl
  dropped _ _ _ := Or.inl rfl
  omitted _ := Or.inl rfl

theorem Hub.Carries.mono {K : Str → Prop} {Q Q' : Msg → Prop} {h : Hub} (hc : Carries K Q h)
    (hQ : ∀ m, Q m → Q' m) : Carries K Q' h :=
  ⟨hc.names, fun n q hq m hm => hQ m (hc.mail n q hq m hm), fun r hr => hQ _ (hc.recent r hr),
    fun n f hf m hm => hQ m (hc.frames n f hf m hm)⟩

/-- **Every stroke** hands on copies of messages that are known. -/
theorem known_stroke {old : List MsgRec} {h h' : Hub} (hw : h.Wf) (hs : Stroke env anyFrame Set.univ h h')
    (hc : Carries (fun _ => True) (Known (old ++ said h.wire.log)) h) :
    Carries (fun _ => True) (Known (old ++ said h'.wire.log)) h' := by
  have hmore : Carries (fun _ => True) (Known (old ++ said h'.wire.log)) h := by
    refine hc.mono fun m hm => hm.imp_right fun hmem => ?_
    obtain ⟨es, hes⟩ := hs.log hw
    rw [← hes, said_append, ← List.append_assoc]
    exact List.mem_append_left _ hmem
  have hsrc := sources_known (old ++ said h'.wire.log)
  cases hs with
  | talk ht => exact hmore.same (ht.toQuiet.keeps (S := ∅) (T := ∅) (E := True)).sameMail
  | aside ha => exact hmore.same (ha.keeps (S := ∅) (T := ∅) (E := True)).sameMail
  | event e skip =>
    exact hmore.same (keeps_emitEvent env h e skip (E := True) (Or.inl trivial)).sameMail
  | declared => exact hmore.same (keeps_append h _ (E := True) rfl (Or.inl trivial)).sameMail
  | touched hg => exact hmore.same (sameMail_modify h _ (fun q => (hg q).kind) fun q => (hg q).mail)
  | reported => exact hmore.same (sameMail_modify h _ (fun _ => rfl) fun _ => rfl)
  | inferred => exact hmore.same (sameMail_modify h _ (fun _ => rfl) fun _ => rfl)
  | flushed => exact hmore.flush hsrc hw.named _
  | @accepted n p q f hq hsame hopen hA =>
    have hrem := roster_remember env h p f
    have hroute := (keeps_route env (E := True) (hrem.named hw.named) (h.sayMsg p f)).said
    have hmsg : Known (old ++ said ((h.remember env p f).route env (h.sayMsg p f)).1.wire.log)
        (h.sayMsg p f) := by
      refine Or.inr (List.mem_append_right _ ?_)
      rw [hroute, said_eq_map, (remembers_remember env h p f).said, List.map_append]
      exact List.mem_append_right _ (List.mem_singleton.mpr rfl)
    exact (hmore.remembered hsrc hmsg).routed hsrc (hrem.named hw.named) hmsg
  | wentOn => exact hmore.same (sameMail_modify h _ (fun _ => rfl) fun _ => rfl)
  | finished => exact hmore.same (keeps_markDone env h _).sameMail
  | @commanded _ _ c =>
    refine hmore.same ?_
    cases c <;> exact ⟨rfl, fun _ => rfl, fun _ q hq => ⟨q, hq, rfl, rfl⟩⟩
  | noted m htext => exact hmore.noted hsrc hw.named htext m
  | goalTold _ hA => exact hmore.goalTold hsrc hw.named (Or.inl rfl)
  | left hp => exact hmore.same (sameMail_leave hp)
  | enrolled _ hfree hA => exact hmore.enrolled hsrc hfree fun _ => nofun
  | caughtUp hp => exact hmore.caughtUp hsrc hw.named hp

/-- All that is handed on is known. -/
def Attributed (w : World) : Prop := Carries (fun _ => True) (Known w.known) w.hub

theorem Attributed.step {w : World} (hw : w.hub.Wf) (ha : Attributed w) (e : Event F) :
    Attributed (w.step site env e) := by
  cases e with
  | op op =>
    have hrule : Handled env anyFrame fun h =>
        Carries (fun _ => True) (Known (messages w.past ++ said h.wire.log)) h :=
      Strokes.rule fun _ _ hw hstroke hc => known_stroke hw hstroke hc
    exact hrule.step hw ha (allowed_any w.hub op) (fun _ => Carries.pruneDead ha)
      fun _ _ _ => ⟨ha.names, ha.mail, ha.recent, ha.frames⟩
  | restart now wall =>
    rw [Attributed, known_restart, step_restart]
    exact carries_init (fun r hr => Or.inr (mem_messages hr)) now wall

/-! ## The notes -/

/-- A copy of a message in `S`, or the hub's own under a number of its own. -/
def Apart (S : List MsgRec) (k : Nat) (m : Msg) : Prop :=
  recordOf m ∈ S ∨ m.sender = systemSender ∧ (m.id = 0 ∨ m.id ≤ k ∧ ∀ r ∈ S, r.id ≠ m.id)

theorem recordOf_copies {h : Hub} {msg m : Msg} {n : Str} (hm : m ∈ h.copies msg n) :
    recordOf m = recordOf msg := by
  unfold copies at hm
  split at hm
  · cases hm
  · unfold copiesFor at hm
    simp only at hm
    split at hm
    · cases hm
    · split at hm
      · split at hm
        · cases hm
        · rw [List.mem_singleton.mp hm]
          rfl
      · rw [List.mem_singleton.mp hm]
        rfl

theorem note_of_notesFor {h : Hub} {text : Str} {ns : List Str} {n : Str} {m : Msg}
    (hm : m ∈ h.notesFor text ns n) : m.sender = systemSender ∧ h.msgCounter < m.id := by
  unfold notesFor at hm
  split at hm
  · rw [List.mem_singleton.mp hm]
    refine ⟨rfl, ?_⟩
    show h.msgCounter < h.msgCounter + 1 + _
    omega
  · cases hm

/-- A copy that an operation creates is of the say it accepts, or is the hub's own. -/
theorem prescribed_cases {h : Hub} {op : Op F} {n : Str} {m : Msg}
    (hm : m ∈ prescribed env h op n) : recordOf m ∈ acceptedSays env h op ∨
      acceptedSays env h op = [] ∧ m.sender = systemSender ∧ (m.id = 0 ∨ h.msgCounter < m.id) := by
  cases op with
  | handle c frame =>
    simp only [prescribed] at hm
    simp only [acceptedSays]
    split at hm
    · cases hm
    · next f hv =>
      cases f with
      | say f =>
        refine Or.inl ?_
        simp only [frameCopies, saidCopies] at hm
        rw [hv]
        split at hm
        · cases hm
        · next p hp =>
          split at hm
          · next hok =>
            simp only [acceptedOf, hp, hok, if_true]
            exact List.mem_singleton.mpr (recordOf_copies hm)
          · cases hm
      | cmd cmd seq =>
        refine Or.inr ⟨by rw [hv], ?_⟩
        simp only [frameCopies, cmdCopies] at hm
        split at hm
        · cases hm
        · split at hm
          · cases cmd with
            | mute => exact ⟨(note_of_notesFor hm).1, Or.inr (note_of_notesFor hm).2⟩
            | unmute => exact ⟨(note_of_notesFor hm).1, Or.inr (note_of_notesFor hm).2⟩
            | goal text ok =>
              simp only [commandCopies, goalLine] at hm
              split at hm
              · rw [List.mem_singleton.mp hm]
                exact ⟨rfl, Or.inl rfl⟩
              · cases hm
            | _ => cases hm
          · cases hm
      | _ => cases hm
  | _ => cases hm

/-- The agents' mail, and what they are sent. -/
structure Separate (w : World) : Prop where
  mail : ∀ n q, w.hub.box? n = some q → q.mail.All (Apart w.known w.hub.msgCounter)

theorem Apart.mono {S S' : List MsgRec} {k k' : Nat} {m : Msg} (hm : Apart S k m) (hk : k ≤ k')
    (hS : ∀ r ∈ S', r ∈ S ∨ k < r.id) (hsub : ∀ r ∈ S, r ∈ S') : Apart S' k' m := by
  refine hm.imp (hsub _) fun ⟨hsys, hid⟩ => ⟨hsys, hid.imp_right fun ⟨hle, hne⟩ =>
    ⟨hle.trans hk, fun r hr => ?_⟩⟩
  rcases hS r hr with hr | hr
  · exact hne r hr
  · omega

/-- **One operation** keeps the notes apart, in the mail and in the frames of agents. -/
theorem separate_op {w : World} (hw : Numbered w) (hs : Separate w) (op : Op F) :
    Separate (w.step site env (.op op)) ∧
      ∀ n q, (w.hub.step env op).box? n = some q → q.isObserver = false →
        ∀ f ∈ newFrames n w.hub (w.hub.step env op), ∀ m ∈ f,
          Apart (w.step site env (.op op)).known (w.hub.step env op).msgCounter m := by
  have hrem := remembers_step env hw.ready.wf op
  have hknown : (w.step site env (.op op)).known = w.known ++ acceptedSays env w.hub op :=
    known_op hw.ready.wf op
  have hmono : ∀ m, Apart w.known w.hub.msgCounter m →
      Apart (w.step site env (.op op)).known (w.hub.step env op).msgCounter m := by
    rw [hknown]
    refine fun m hm => hm.mono hrem.counter (fun r hr => ?_) fun r hr => List.mem_append_left _ hr
    exact (List.mem_append.mp hr).imp_right fun hr => (hrem.fresh r hr).1
  have hown : ∀ S k n, Apart S k (omittedNote n) := fun S k n => Or.inr ⟨rfl, Or.inl rfl⟩
  have hplay : ∀ n q, (w.hub.step env op).box? n = some q →
      q.mail.All (Apart (w.step site env (.op op)).known (w.hub.step env op).msgCounter) ∧
        (q.isObserver = false → ∀ f ∈ newFrames n w.hub (w.hub.step env op), ∀ m ∈ f,
          Apart (w.step site env (.op op)).known (w.hub.step env op).msgCounter m) := by
    intro n q hq
    obtain ⟨b, as, hm⟩ := mailed hw.ready op hq
    have hb : b.All (Apart (w.step site env (.op op)).known (w.hub.step env op).msgCounter) := by
      rcases hm.before with ⟨q₀, hq₀, rfl⟩ | rfl
      · exact fun m hmem => hmono m (hs.mail n q₀ hq₀ m hmem)
      · exact fun m hmem => nomatch hmem
    have hin : ∀ m ∈ as.flatMap Act.msgs,
        Apart (w.step site env (.op op)).known (w.hub.step env op).msgCounter m := by
      intro m hmem
      rw [hknown]
      rcases hm.source m hmem with hcopy | hline
      · rcases prescribed_cases hcopy with hsaid | ⟨hnone, hsys, hid⟩
        · exact Or.inl (List.mem_append_right _ hsaid)
        · refine Or.inr ⟨hsys, hid.imp_right fun hlt => ⟨hm.ids m hmem, fun r hr => ?_⟩⟩
          rw [hnone, List.append_nil] at hr
          have := hw.taken r hr
          omega
      · obtain ⟨m₀, hm₀, rfl⟩ := List.mem_map.mp hline
        obtain ⟨r, hr, rfl⟩ := mem_backlog hm₀
        exact Or.inl (List.mem_append_left _ (hw.recent r hr))
    obtain ⟨hkept, hframes⟩ := All.play env.config hb (fun n => hown _ _ n) (fun n => Or.inr ⟨rfl, Or.inl rfl⟩)
      as hin
    rw [hm.mail]
    exact ⟨hkept, fun hobs => by rw [hm.frames hobs]; exact hframes⟩
  exact ⟨⟨fun n q hq => (hplay n q hq).1⟩, fun n q hq hobs => (hplay n q hq).2 hobs⟩

theorem Separate.step {w : World} (hw : Numbered w) (hs : Separate w) (e : Event F) :
    Separate (w.step site env e) := by
  cases e with
  | op op => exact (separate_op hw hs op).1
  | restart now wall =>
    rw [step_restart]
    exact ⟨fun n q hq => nomatch hq⟩

/-! ## Runs -/

/-- The copies in the frames and in the mail belong to the messages and notes they show.  That no
later say takes the id of a note is in `Apart`: a note's id is at most the counter, and a say takes
the id after it. -/
structure Cited (site : Site F) (env : Env) (w : World) : Prop where
  shown : ∀ n, ∀ f ∈ deliveries n w.hub.wire.log, ∀ m ∈ f, Known w.known m
  kept : ∀ n q, w.hub.box? n = some q → q.mail.All (Apart w.known w.hub.msgCounter)
  handed : ∀ (op : Op F) n q, (w.hub.step env op).box? n = some q → q.isObserver = false →
    ∀ f ∈ newFrames n w.hub (w.hub.step env op), ∀ m ∈ f,
      Apart (w.step site env (.op op)).known (w.hub.step env op).msgCounter m

/-- What an operation writes, and tells the senders. -/
structure Reported (site : Site F) (env : Env) (w : World) (op : Op F) : Prop where
  written : messages (w.step site env (.op op)).log = messages w.log ++
    (acceptedSays env w.hub op).filter fun r => r.Encodes
  answered : ∀ r ∈ acceptedSays env w.hub op, Answers env w.hub op r

/-- **Message ids never repeat.**  Over any lifetimes on one directory, each of which starts on the
day of the last message written so far or on the next, the ids of the messages strictly increase in
the order they are written.  Each is in the answer to its say and in every copy, and no note of the
hub has the id of a message. -/
theorem ids_never_repeat (site : Site F) (env : Env) (now wall : Rat) (es : List (Event F))
    (hnear : Run.Always (World.step site env) (Near site) (World.first env now wall) es) :
    let w := Run.after (World.step site env) (World.first env now wall) es
    ((messages w.log).map MsgRec.id).Pairwise (· < ·) ∧
      (w.known.map MsgRec.id).Pairwise (· < ·) ∧ Cited site env w ∧
        ∀ op, Reported site env w op := by
  intro w
  obtain ⟨hnumbered, hattributed, hseparate⟩ :=
    Run.invariant (I := fun w => Numbered w ∧ Attributed w ∧ Separate w)
      (fun w e hw he => ⟨hw.1.step he, hw.2.1.step hw.1.ready.wf e, hw.2.2.step hw.1 e⟩)
      (s := World.first env now wall)
      ⟨numbered_first now wall, carries_init (fun r hr => (nomatch hr)) now wall,
        ⟨fun n q hq => nomatch hq⟩⟩ hnear
  exact ⟨hnumbered.messages, hnumbered.ascending,
    ⟨hattributed.frames, hseparate.mail, fun op => (separate_op hnumbered hseparate op).2⟩,
    fun op => ⟨messages_op hnumbered.ready.wf op, fun r hr => answers hnumbered.ready.wf hr⟩⟩

end

/-! ## A place -/

/-- A whole number, as a float is written. -/
def wholeToken (z : Int) : PyJson.Token :=
  .num (intToken z ++ ['.', '0']) (by
    have hint := numRun_intToken z
    rw [numRun, List.foldl_append]
    change NumState.isFloat (List.foldl numStep (numRun .start (intToken z)) ['.', '0']) = true
    revert hint
    cases numRun .start (intToken z) <;> decide)

/-- A time as it is written, a fraction if it is no whole number. -/
def timeJson (t : Rat) : Json PyJson.Token :=
  if t.den = 1 then .float (wholeToken t.num) else .arr [.int t.num, .int t.den]

def timeOfJson : Json PyJson.Token → Rat
  | .float (.num tok _) => intOfToken tok.dropLast.dropLast
  | .arr [.int n, .int d] => n / d
  | _ => 0

theorem timeOfJson_timeJson (t : Rat) : timeOfJson (timeJson t) = t := by
  unfold timeJson
  split
  · next hden =>
    have hdrop : (intToken t.num ++ ['.', '0']).dropLast.dropLast = intToken t.num := by
      rw [show intToken t.num ++ ['.', '0'] = intToken t.num ++ ['.'] ++ ['0'] by simp,
        List.dropLast_concat, List.dropLast_concat]
    show (intOfToken (intToken t.num ++ ['.', '0']).dropLast.dropLast : Rat) = t
    rw [hdrop, intOfToken_intToken]
    exact Rat.coe_int_num_of_den_eq_one hden
  · show (t.num : Rat) / ((t.den : Int) : Rat) = t
    exact_mod_cast Rat.num_div_den t

/-- A place whose days are those of UTC. -/
def utc : Site PyJson.Token where
  day t := (t / 86400).floor
  num := timeJson
  time := timeOfJson
  num_wf t := by
    unfold timeJson
    split
    · trivial
    · exact ⟨trivial, trivial, trivial⟩
  num_clean t := by
    unfold timeJson
    split
    · trivial
    · exact ⟨trivial, trivial, trivial⟩
  time_num := timeOfJson_timeJson

/-- Alice says something, and says it again to a hub of the next day. -/
def twoDays : List (Event PyJson.Token) :=
  [.op (.handle 0 (helloFrame "alice" "agent" [])), .op (.handle 0 (sayFrame "*" "claim" "hi" false)),
    .restart 86400 86400, .op (.handle 0 (helloFrame "alice" "agent" [])),
    .op (.handle 0 (sayFrame "*" "claim" "hi" false))]

theorem near_twoDays :
    Run.Always (World.step utc .still) (Near utc) (World.first .still 0 0) twoDays := by
  have hlast : (messagesAt (Run.after (World.step utc .still) (World.first .still 0 0)
      (twoDays.take 2)).log).getLast?.map Prod.fst = some 0 := by decide +kernel
  refine ⟨?_, ?_, ?_, ?_, ?_, trivial⟩
  · rintro _ _ ⟨⟩
  · rintro _ _ ⟨⟩
  · rintro _ _ ⟨⟩ last h
    have hzero : some last.1 = some 0 := (congrArg (Option.map Prod.fst) h).symm.trans hlast
    rw [Option.some.inj hzero]
    decide +kernel
  · rintro _ _ ⟨⟩
  · rintro _ _ ⟨⟩

theorem ids_never_repeat_twoDays :
    ((messages (Run.after (World.step utc .still) (World.first .still 0 0) twoDays).log).map
      MsgRec.id).Pairwise (· < ·) :=
  (ids_never_repeat utc .still 0 0 twoDays near_twoDays).1

end Moot
