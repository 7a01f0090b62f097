import Moot.Hub.Turn

/-!
# What the hub remembers of the says it accepts

An accepted say takes the next id, is written to the transcript and enters the
recent window.  Nothing else is written there or enters it.

Proved here: `remembers_step`, the says an operation accepts and what they leave.
-/

namespace Moot
open Py Proto

/-- The accepted say an effect records, and when. -/
def Effect.saidAt? : Effect → Option (Rat × MsgRec)
  | .append wall (.msg _ r) => some (wall, r)
  | _ => none

/-- The accepted says in a log, with their times. -/
def saidAt (log : List Effect) : List (Rat × MsgRec) := log.filterMap Effect.saidAt?

@[simp] theorem saidAt_append (l l' : List Effect) : saidAt (l ++ l') = saidAt l ++ saidAt l' :=
  List.filterMap_append

theorem said_eq_map (log : List Effect) : said log = (saidAt log).map Prod.snd := by
  rw [said, saidAt, List.map_filterMap]
  refine List.filterMap_congr fun e _ => ?_
  cases e with
  | append wall r => cases r <;> rfl
  | _ => rfl

/-- The recent window after some says. -/
def recentAfter (env : Env) (recent : List MsgRec) (rs : List MsgRec) : List MsgRec :=
  rs.foldl (fun window r => lastN env.config.recentWindow (window ++ [r])) recent

namespace Hub

/-- From `h` to `h'`, the says `rs` were accepted, at the time `wall`. -/
structure Remembers (env : Env) (wall : Rat) (rs : List MsgRec) (h h' : Hub) : Prop where
  counter : h.msgCounter ≤ h'.msgCounter
  ordered : (rs.map MsgRec.id).Pairwise (· < ·)
  fresh : ∀ r ∈ rs, h.msgCounter < r.id ∧ r.id ≤ h'.msgCounter
  said : saidAt h'.wire.log = saidAt h.wire.log ++ rs.map fun r => (wall, r)
  recent : h'.recent = recentAfter env h.recent rs

section
variable {env : Env} {wall : Rat} {h h' h'' : Hub}

theorem Remembers.refl (h : Hub) : Remembers env wall [] h h :=
  ⟨le_rfl, .nil, by simp, by simp, rfl⟩

theorem Remembers.trans {rs rs' : List MsgRec} (hab : Remembers env wall rs h h')
    (hbc : Remembers env wall rs' h' h'') : Remembers env wall (rs ++ rs') h h'' := by
  refine ⟨hab.counter.trans hbc.counter, ?_, fun r hr => ?_, ?_, ?_⟩
  · rw [List.map_append]
    refine List.pairwise_append.mpr ⟨hab.ordered, hbc.ordered, fun i hi j hj => ?_⟩
    obtain ⟨r, hr, rfl⟩ := List.mem_map.mp hi
    obtain ⟨r', hr', rfl⟩ := List.mem_map.mp hj
    exact Nat.lt_of_le_of_lt (hab.fresh r hr).2 (hbc.fresh r' hr').1
  · rcases List.mem_append.mp hr with hr | hr
    · exact ⟨(hab.fresh r hr).1, (hab.fresh r hr).2.trans hbc.counter⟩
    · exact ⟨Nat.lt_of_le_of_lt hab.counter (hbc.fresh r hr).1, (hbc.fresh r hr).2⟩
  · rw [hbc.said, hab.said, List.map_append, List.append_assoc]
  · rw [hbc.recent, hab.recent, recentAfter, recentAfter, recentAfter, List.foldl_append]

/-- A step that only logs other things. -/
theorem remembers_nothing (hcount : h.msgCounter ≤ h'.msgCounter) (hrecent : h'.recent = h.recent)
    (hlog : h.wire.log <+: h'.wire.log) (hsaid : Moot.said h'.wire.log = Moot.said h.wire.log) :
    Remembers env wall [] h h' := by
  refine ⟨hcount, .nil, by simp, ?_, hrecent⟩
  obtain ⟨es, hes⟩ := hlog
  rw [← hes, said_append, List.append_right_eq_self, said_eq_map, List.map_eq_nil_iff] at hsaid
  rw [← hes, saidAt_append, hsaid, List.map_nil]

theorem Keeps.remembers {S T : Set Str} {E : Prop} (hk : Keeps S T E h h') :
    Remembers env wall [] h h' :=
  remembers_nothing hk.counter hk.recent hk.wire.log hk.said

variable (env)

theorem remembers_remember (h : Hub) (p : Participant) (f : Say) :
    Remembers env h.wall [recordOf (h.sayMsg p f)] h (h.remember env p f) := by
  have hcount : Keeps ∅ ∅ False h (h.countSay p f) := keeps_countSay h p f
  have hnew := counter_remember env h p f
  refine ⟨by omega, List.pairwise_singleton _ _, fun r hr => ?_, ?_, ?_⟩
  · rw [List.mem_singleton] at hr
    rw [hr, hnew]
    exact ⟨Nat.lt_succ_self _, le_rfl⟩
  rotate_left
  · show lastN _ ((h.countSay p f).recent ++ _) = _
    rw [hcount.recent]
    rfl
  · have hsaid := (hcount.remembers : Remembers env h.wall [] h _).said
    rw [List.map_nil, List.append_nil] at hsaid
    show saidAt ((h.countSay p f).wire.log ++ [.append (h.countSay p f).wall (.msg _ _)]) = _
    rw [saidAt_append, hsaid, hcount.wall]
    rfl

theorem remembers_accept (hn : h.Named) (p : Participant) (f : Say) :
    Remembers env h.wall [recordOf (h.sayMsg p f)] h (h.accept env p f) := by
  have hrem := remembers_remember env h p f
  have hroute : Remembers env h.wall [] _ _ := (keeps_route env (E := False) ((roster_remember env h p f).named hn)
    (h.sayMsg p f)).remembers
  have hanswer : Remembers env h.wall [] _ _ := (keeps_answer env (S := ∅) (T := ∅) (E := False)
    ((h.remember env p f).route env (h.sayMsg p f)).1 p f (h.msgCounter + 1)
    ((h.remember env p f).route env (h.sayMsg p f)).2).remembers
  exact (hrem.trans hroute).trans hanswer

/-- The says of a say frame of the participant `n`: one if it is accepted, else none. -/
def acceptedOf (h : Hub) (n : Str) (f : Say) : List MsgRec :=
  match h.get? n with
  | none => []
  | some p => if (h.routeSay env n f).1 then [recordOf (h.sayMsg p f)] else []

theorem remembers_handleSay (hn : h.Named) (n : Str) (f : Say) :
    Remembers env h.wall (acceptedOf env h n f) h (h.handleSay env n f) := by
  have hsettle : Remembers env h.wall [] _ _ :=
    (keeps_settle env ((roster_routeSay env hn n f).named hn) n f (h.routeSay env n f).1).remembers
  cases hp : h.get? n with
  | none =>
    have hroute : Remembers env h.wall (acceptedOf env h n f) h (h.routeSay env n f).2 := by
      rw [acceptedOf, routeSay, hp]
      exact .refl h
    have := hroute.trans hsettle
    rwa [List.append_nil] at this
  | some p =>
    have hroute : Remembers env h.wall (acceptedOf env h n f) h (h.routeSay env n f).2 := by
      obtain ⟨h₀, hc, heq | ⟨code, detail, retry, heq⟩⟩ := routeSay_cases env hp f
      · have hcharged : Keeps ∅ ∅ False h h₀ := hc.keeps
        have hacc := remembers_accept env (hcharged.named hn) p f
        rw [hcharged.wall, sayMsg_charged hc] at hacc
        rw [acceptedOf, hp]
        simp only [heq, if_true]
        exact (hcharged.remembers : Remembers env h.wall [] h h₀).trans hacc
      · have hcharged : Keeps ∅ ∅ False h h₀ := hc.keeps
        rw [acceptedOf, hp]
        simp only [heq, Bool.false_eq_true, if_false]
        exact (hcharged.trans (keeps_refuse env _ _ _ _ _ _)).remembers
    have := hroute.trans hsettle
    rwa [List.append_nil] at this

/-! ## Operations -/

theorem remembers_leave (h : Hub) (n : Str) (p : Participant) :
    Remembers env wall [] h (h.leave env n p) := by
  have hk : Keeps ∅ ∅ True
      { h with
        dead := h.dead.insert n p
        participants := h.participants.erase n
        blockedNotified := h.blockedNotified.filter (· ≠ n) }.touchActivity (h.leave env n p) :=
    keeps_emitEvent env _ (.peerLeft n) none (Or.inl trivial)
  exact remembers_nothing hk.counter hk.recent hk.wire.log hk.said

theorem remembers_disconnect (h : Hub) (c : ClientId) :
    Remembers env wall [] h (h.disconnect env c) := by
  have hclose : ∀ k : Hub, Remembers env wall [] k (k.close c) := fun k =>
    (keeps_close (S := ∅) (T := ∅) (E := True) k c).remembers
  rcases disconnect_cases env h c with ⟨p, -, -, heq⟩ | ⟨-, heq⟩
  · rw [heq]
    have hdone : Remembers env wall [] (h.leave env (h.wire.clients c).name p) _ :=
      (keeps_checkSessionDone (S := ∅) (T := ∅) env _).remembers
    exact ((remembers_leave env h _ p).trans hdone).trans (hclose _)
  · rw [heq]
    exact hclose h

theorem remembers_reap (h : Hub) (n : Str) : Remembers env wall [] h (h.reap env n) := by
  unfold reap
  split
  · split
    · exact .refl h
    · exact remembers_disconnect env h _
  · exact .refl h

theorem remembers_handleHello (hw : h.Wf) (c : ClientId) (f : Hello) :
    Remembers env wall [] h (h.handleHello env c f) := by
  have hready : Remembers env wall [] h ((h.reap env f.name).declareRoom f) :=
    (remembers_reap env h f.name).trans
      (keeps_declareRoom (S := ∅) (T := ∅) (E := True) _ f).remembers
  have hw' : ((h.reap env f.name).declareRoom f).Wf :=
    (hw.reap env f.name).keeps (keeps_declareRoom (S := ∅) (T := ∅) (E := True) _ f)
  rcases handleHello_cases env h c f with
    ⟨-, detail, heq⟩ | ⟨hname, ⟨p, -, heq⟩ | ⟨-, heq⟩⟩
  · rw [heq]
    exact ((quiet_errRaw env h c _ _ _).keeps (S := ∅) (T := ∅) (E := True)).remembers
  · rw [heq]
    exact hready.trans (keeps_turnAway (S := ∅) (T := ∅) (E := True) env _ c f.name).remembers
  · rw [heq]
    have hc : (((h.reap env f.name).declareRoom f).wire.clients c).name = [] := by
      rw [name_declareRoom, name_reap]
      exact hname
    have henroll : Remembers env wall [] ((h.reap env f.name).declareRoom f)
        (((h.reap env f.name).declareRoom f).enroll c f.name
          (admitted env ((h.reap env f.name).declareRoom f) c f)) :=
      remembers_nothing le_rfl rfl (List.prefix_refl _) rfl
    exact (hready.trans henroll).trans (keeps_register env hw' hc f).remembers

theorem remembers_tickOne (hn : h.Named) (n : Str) :
    Remembers env wall [] h (h.tickOne env n) := by
  rcases tickOne_cases env h n with ⟨-, heq⟩ | ⟨p, -, heq | heq | ⟨-, heq⟩⟩
  · rw [heq]
    exact .refl h
  · rw [heq]
    exact remembers_disconnect env h _
  · rw [heq]
    exact (keeps_pingSilent (S := ∅) (T := ∅) (E := True) env h n p).remembers
  · rw [heq]
    exact (keeps_tickAgent env hn n p).remembers

theorem remembers_watchdogTick (hw : h.Wf) :
    Remembers env wall [] h (h.watchdogTick env) := by
  have hprune : Remembers env wall [] h (h.pruneDead env) :=
    remembers_nothing le_rfl rfl (List.prefix_refl _) rfl
  have hticks := (tick_invariant env (I := fun k => k.Wf ∧ Remembers env wall [] (h.pruneDead env) k)
    (fun k m hk => ⟨hk.1.tickOne env m, hk.2.trans (remembers_tickOne env hk.1.named m)⟩)
    ⟨hw.pruneDead env, .refl _⟩ (h.pruneDead env).participants.keys).2
  exact (hprune.trans hticks).trans
    (keeps_checks (S := ∅) (T := ∅) (E := True) env _).remembers

theorem remembers_dispatch (hw : h.Wf) (c : ClientId) (f : Inbound) :
    Remembers env h.wall
      (match f with
        | .say f => acceptedOf env (h.lifeSign (h.wire.clients c).name) (h.wire.clients c).name f
        | _ => [])
      h (h.dispatch env c f) := by
  have hlife : Keeps ∅ ∅ True h (h.lifeSign (h.wire.clients c).name) := keeps_lifeSign h _
  have hlife' : Remembers env h.wall [] h (h.lifeSign (h.wire.clients c).name) := hlife.remembers
  have hn' := hlife.named hw.named
  unfold dispatch
  generalize hm : (h.wire.clients c).name = m at *
  simp only
  cases hp : h.get? m with
  | none =>
    have hnone : (h.lifeSign m).get? m = none := hlife.toRoster.none hp
    have hcopies : (match f with
        | .say f => acceptedOf env (h.lifeSign m) m f
        | _ => []) = [] := by
      cases f with
      | say f => simp only [acceptedOf, hnone]
      | _ => rfl
    rw [hcopies]
    exact ((quiet_errRaw env h c _ _ _).keeps (S := ∅) (T := ∅) (E := True)).remembers
  | some p =>
    cases f with
    | hello f => exact hlife'
    | say f => exact hlife'.trans (remembers_handleSay env hn' m f)
    | state f => exact hlife'.trans (keeps_handleState env hn' m f).remembers
    | cmd cmd seq =>
      exact hlife'.trans (keeps_handleCmd env (E := False) hn' m cmd seq).remembers
    | roster seq =>
      exact hlife'.trans
        ((quiet_handleRoster env _ _ seq).keeps (S := ∅) (T := ∅) (E := True)).remembers
    | bye => exact hlife'.trans (remembers_disconnect env _ c)
    | pong => exact hlife'

variable {F : Type} [PyJson.PyFloat F]

/-- The says an operation accepts. -/
def acceptedSays (h : Hub) (op : Op F) : List MsgRec :=
  match op with
  | .handle c frame =>
    match validate env.isPrintable frame with
    | .ok (.say f) => acceptedOf env (h.lifeSign (h.wire.clients c).name) (h.wire.clients c).name f
    | _ => []
  | _ => []

/-- **What an operation remembers**: the says it accepts. -/
theorem remembers_step (hw : h.Wf) (op : Op F) :
    Remembers env h.wall (acceptedSays env h op) h (h.step env op) := by
  cases op with
  | handle c frame =>
    show Remembers env h.wall _ h (h.handle env c frame)
    rcases handle_cases env h c frame with ⟨e, hv, heq⟩ | ⟨f, hv, heq⟩
    · simp only [acceptedSays, hv, heq]
      exact ((quiet_errRaw env h c e.code e.detail e.seq).keeps (S := ∅) (T := ∅)
        (E := True)).remembers
    · simp only [acceptedSays, hv, heq]
      rcases handleInbound_cases env h c f with ⟨g, rfl, hg⟩ | ⟨-, hg⟩
      · rw [hg]
        exact remembers_handleHello env hw c g
      · rw [hg]
        have hd := remembers_dispatch env hw c f
        cases f with
        | say f => exact hd
        | _ => exact hd
  | disconnect c => exact remembers_disconnect env h c
  | watchdogTick => exact remembers_watchdogTick env hw
  | clock now wall => exact remembers_nothing le_rfl rfl (List.prefix_refl _) rfl
  | fail c => exact (keeps_fail (S := ∅) (T := ∅) (E := True) h c).remembers

/-- The recent window is in the order of its ids, and these are taken. -/
structure Recalls (h : Hub) : Prop where
  ascending : (h.recent.map MsgRec.id).Pairwise (· < ·)
  taken : ∀ r ∈ h.recent, r.id ≤ h.msgCounter

theorem mem_recentAfter {recent rs : List MsgRec} {r : MsgRec} (hr : r ∈ recentAfter env recent rs) :
    r ∈ recent ∨ r ∈ rs := by
  induction rs generalizing recent with
  | nil => exact Or.inl hr
  | cons r' rs ih =>
    rcases ih hr with hr | hr
    · have := (lastN_suffix _ _).subset hr
      rw [List.mem_append, List.mem_singleton] at this
      rcases this with hr | rfl
      · exact Or.inl hr
      · exact Or.inr (List.mem_cons_self ..)
    · exact Or.inr (List.mem_cons_of_mem _ hr)

theorem sublist_recentAfter (recent rs : List MsgRec) :
    (recentAfter env recent rs).Sublist (recent ++ rs) := by
  induction rs generalizing recent with
  | nil => simp [recentAfter]
  | cons r rs ih =>
    have hstep := ih (lastN env.config.recentWindow (recent ++ [r]))
    refine hstep.trans ?_
    rw [List.append_cons recent r rs]
    exact ((lastN_suffix _ _).sublist).append_right rs

theorem Remembers.recalls {env : Env} {rs : List MsgRec} (hr : Remembers env wall rs h h')
    (ho : h.Recalls) : h'.Recalls := by
  refine ⟨?_, fun r hmem => ?_⟩
  · rw [hr.recent]
    refine List.Pairwise.sublist ((sublist_recentAfter env h.recent rs).map _) ?_
    rw [List.map_append]
    refine List.pairwise_append.mpr ⟨ho.ascending, hr.ordered, fun i hi j hj => ?_⟩
    obtain ⟨r, hr₁, rfl⟩ := List.mem_map.mp hi
    obtain ⟨r', hr₂, rfl⟩ := List.mem_map.mp hj
    exact Nat.lt_of_le_of_lt (ho.taken r hr₁) (hr.fresh r' hr₂).1
  · rw [hr.recent] at hmem
    rcases mem_recentAfter env hmem with hmem | hmem
    · exact (ho.taken r hmem).trans hr.counter
    · exact (hr.fresh r hmem).2

theorem le_foldr_max {ns : List Nat} {n : Nat} (hn : n ∈ ns) : n ≤ ns.foldr max 0 := by
  induction ns with
  | nil => cases hn
  | cons m ns ih =>
    rcases List.mem_cons.mp hn with rfl | hn
    · exact le_max_left _ _
    · exact (ih hn).trans (le_max_right _ _)

theorem recalls_init {records : List MsgRec} {now wall : Rat}
    (hasc : ((init env records now wall).recent.map MsgRec.id).Pairwise (· < ·)) :
    (init env records now wall).Recalls :=
  ⟨hasc, fun _ hr => le_foldr_max (List.mem_map_of_mem ((lastN_suffix _ _).subset hr))⟩

end

end Hub

end Moot
