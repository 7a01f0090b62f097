import Moot.Hub.Clean
import Moot.Hub.Deed
import Moot.Hub.Settings
import Moot.Spoke.Seat

/-!
# The floor as an observer sees it

A welcome shows the floor, a join, a leave and a new goal are told to every observer,
and a roster shows the floor again.  So the picture that the frames of a connected
observer draw is the floor (`Hub.Mirrored`).  A goal that cannot be encoded is set and
told to nobody.

Proved here: `seat_mirrors_floor`, over every run on clean strings.
-/

namespace Moot
open Py PyJson Proto Spoke

/-- The frame an effect sends to the client `c`, if it is connected. -/
def Effect.frameTo? (c : ClientId) : Effect → Option Frame
  | .send _ d true f => if d = c then some f else none
  | _ => none

/-- The frames sent to the client `c` in a log, while it is connected. -/
def framesTo (c : ClientId) (log : List Effect) : List Frame := log.filterMap (·.frameTo? c)

/-- The frame shows who is there, or the goal. -/
def Frame.scenic : Frame → Bool
  | .welcome .. | .roster .. | .event (.peerJoined ..) | .event (.peerLeft _)
  | .event (.goalSet _) => true
  | _ => false

/-- The effect sends no such frame. -/
def Effect.Dull : Effect → Prop
  | .send _ _ _ f => f.scenic = false
  | _ => True

theorem framesTo_append (c : ClientId) (l l' : List Effect) :
    framesTo c (l ++ l') = framesTo c l ++ framesTo c l' := List.filterMap_append

/-- A frame reaches the client it is sent to, if that is connected. -/
theorem framesTo_send (env : Env) (w : Wire) (name : Str) (d : ClientId) (f : Frame) (c : ClientId) :
    framesTo c (w.send env name d f).log =
      framesTo c w.log ++ if (w.clients d).connected = true ∧ d = c then [f] else [] := by
  have hlog : (w.send env name d f).log = w.log ++ [.send name d (w.clients d).connected f] := rfl
  have hone : framesTo c [.send name d (w.clients d).connected f] =
      if (w.clients d).connected = true ∧ d = c then [f] else [] := by
    cases (w.clients d).connected with
    | false => rfl
    | true =>
      by_cases hd : d = c
      · simp [framesTo, Effect.frameTo?, hd]
      · simp [framesTo, Effect.frameTo?, hd]
  rw [hlog, framesTo_append, hone]

theorem draw_dull {f : Frame} (hf : f.scenic = false) (me : Str) (v : Picture) :
    draw me v f = v := by
  unfold draw
  split
  · cases hf
  · cases hf
  · cases hf
  · cases hf
  · rfl

theorem outline_dull {f : Frame} (hf : f.scenic = false) : outline f = none := by
  unfold outline
  split
  · cases hf
  · rfl

theorem draws_dull {fs : List Frame} (hfs : ∀ f ∈ fs, f.scenic = false) (me : Str) (v : Picture) :
    fs.foldl (draw me) v = v := by
  induction fs with
  | nil => rfl
  | cons f fs ih =>
    rw [List.foldl_cons, draw_dull (hfs f (List.mem_cons_self ..))]
    exact ih fun g hg => hfs g (List.mem_cons_of_mem _ hg)

/-- An event that is told twice is an event. -/
theorem draws_event (e : HubEvent) {k : Nat} (hk : 0 < k) (me : Str) (v : Picture) :
    (List.replicate k (Frame.event e)).foldl (draw me) v = draw me v (.event e) := by
  have htwice : ∀ v, draw me (draw me v (.event e)) (.event e) = draw me v (.event e) := by
    intro v
    cases e with
    | peerJoined name kind role => simp only [draw, Function.update_idem]
    | peerLeft name => simp only [draw, Function.update_idem]
    | _ => rfl
  induction k generalizing v with
  | zero => omega
  | succ k ih =>
    rw [List.replicate_succ, List.foldl_cons]
    cases k with
    | zero => rfl
    | succ k => rw [ih (Nat.succ_pos k), htwice]

namespace Hub

/-- The floor, as `n` is to see it. -/
def floor (h : Hub) (n : Str) : Picture where
  peers m := if m = n then none else (h.get? m).map Participant.kind
  goal := h.goal

/-- The picture of every connected observer is the floor. -/
def Mirrored (h : Hub) : Prop :=
  ∀ n p, h.get? n = some p → p.isObserver = true → h.up p.client = true →
    sketch n (fromWelcome (framesTo p.client h.wire.log)) = some (h.floor n)

/-- Who has no name yet has not been welcomed. -/
def Unmet (h : Hub) : Prop :=
  ∀ c, (h.wire.clients c).name = [] → ∀ f ∈ framesTo c h.wire.log, outline f = none

section
variable {env : Env} {A : Filter} {h h' : Hub} {n : Str} {p : Participant}

/-! ## What a step sends to one client -/

theorem framesTo_dull (hw : Wrote Effect.Dull h h') (c : ClientId) :
    ∃ fs, framesTo c h'.wire.log = framesTo c h.wire.log ++ fs ∧ ∀ f ∈ fs, f.scenic = false := by
  obtain ⟨es, hes, hdull⟩ := hw
  refine ⟨framesTo c es, by rw [hes, framesTo_append], ?_⟩
  intro f hf
  obtain ⟨e, he, hframe⟩ := List.mem_filterMap.mp hf
  have := hdull e he
  unfold Effect.frameTo? at hframe
  split at hframe
  · split at hframe
    · rw [Option.some.injEq] at hframe
      rw [← hframe]
      exact this
    · cases hframe
  · cases hframe

variable (env) in
/-- An event is told to the observers alone, and to all that are connected. -/
theorem framesTo_emitEvent (h : Hub) (e : HubEvent) (skip : Option Str) (c : ClientId) :
    ∃ k, framesTo c (h.emitEvent env e skip).wire.log =
        framesTo c h.wire.log ++ List.replicate k (.event e) ∧
      ((h.emitEvent env e skip).up c = true → ∀ q ∈ h.participants.values, q.client = c →
        q.isObserver = true → skip ≠ some q.name → 0 < k) ∧
      ((∀ q ∈ h.participants.values, q.client = c → skip = some q.name) → k = 0) := by
  have htell : ∀ (ps : List Participant) (w : Wire), ∃ k,
      framesTo c (ps.foldl (tellEvent env e skip) w).log =
        framesTo c w.log ++ List.replicate k (.event e) ∧
      (((ps.foldl (tellEvent env e skip) w).clients c).connected = true → ∀ q ∈ ps, q.client = c →
        q.isObserver = true → skip ≠ some q.name → 0 < k) ∧
      ((∀ q ∈ ps, q.client = c → skip = some q.name) → k = 0) := by
    intro ps
    induction ps with
    | nil => exact fun w => ⟨0, (List.append_nil _).symm, by simp, by simp⟩
    | cons p ps ih =>
      intro w
      obtain ⟨k, hlog, hpos, hzero⟩ := ih (tellEvent env e skip w p)
      have hle : w.Le (ps.foldl (tellEvent env e skip) (tellEvent env e skip w p)) :=
        ((quiet_tellEvent env e skip w p).trans (quiet_tellAll env e skip ps _)).toLe
      rw [List.foldl_cons]
      by_cases hto : (p.isObserver && skip ≠ some p.name && (w.clients p.client).connected) = true ∧
          p.client = c
      · have hsent : framesTo c (tellEvent env e skip w p).log = framesTo c w.log ++ [.event e] := by
          have hup : (w.clients p.client).connected = true := (Bool.and_eq_true_iff.mp hto.1).2
          rw [hto.2] at hup
          rw [tellEvent, if_pos hto.1, framesTo_send, hto.2, if_pos ⟨hup, rfl⟩]
        refine ⟨k + 1, ?_, fun _ _ _ _ _ _ => Nat.succ_pos k, ?_⟩
        · rw [hlog, hsent, List.append_assoc, List.replicate_succ]
          rfl
        · intro hall
          have hskip := hall p (List.mem_cons_self ..) hto.2
          simp [hskip] at hto
      · have hsent : framesTo c (tellEvent env e skip w p).log = framesTo c w.log := by
          unfold tellEvent
          split
          · next htold =>
            have hother : ¬((w.clients p.client).connected = true ∧ p.client = c) :=
              fun hc => hto ⟨htold, hc.2⟩
            rw [framesTo_send, if_neg hother, List.append_nil]
          · rfl
        refine ⟨k, by rw [hlog, hsent], ?_, fun hall => hzero fun q hq =>
          hall q (List.mem_cons_of_mem _ hq)⟩
        intro hup q hq hclient hobs hskip
        rcases List.mem_cons.mp hq with rfl | hq
        · refine absurd ⟨?_, hclient⟩ hto
          have hconn : (w.clients q.client).connected = true := by
            rw [hclient]
            exact hle.down c hup
          simp [hobs, hskip, hconn]
        · exact hpos hup q hq hclient hobs hskip
  obtain ⟨k, hlog, hpos, hzero⟩ := htell h.participants.values h.wire
  refine ⟨k, ?_, hpos, hzero⟩
  rw [← hlog]
  exact (framesTo_append _ _ _).trans (List.append_nil _)

/-! ## Steps that show nothing -/

/-- What is kept: the pictures, and that the unnamed have none. -/
structure Watched (h : Hub) : Prop where
  mirrored : h.Mirrored
  unmet : h.Unmet

theorem floor_congr (hkind : ∀ m, (h'.get? m).map Participant.kind = (h.get? m).map Participant.kind)
    (hgoal : h'.goal = h.goal) (n : Str) : h'.floor n = h.floor n := by
  rw [floor, floor, Picture.mk.injEq]
  exact ⟨funext fun m => by rw [hkind], hgoal⟩

theorem Roster.kinds (hr : h.Roster h') (m : Str) :
    (h'.get? m).map Participant.kind = (h.get? m).map Participant.kind := by
  cases hp : h.get? m with
  | none => rw [hr.none hp]
  | some p =>
    obtain ⟨p', hp', hs⟩ := hr.same m p hp
    rw [hp', Option.map_some, Option.map_some, hs.kind]

theorem Watched.dull (hi : h.Watched) (hr : h.Roster h') (hgoal : h'.goal = h.goal)
    (hw : Wrote Effect.Dull h h') : h'.Watched := by
  constructor
  · intro n p' hp' hobs hup
    obtain ⟨p, hp, hs⟩ := hr.back hp'
    obtain ⟨fs, hfs, hdull⟩ := framesTo_dull hw p'.client
    rw [hs.isObserver] at hobs
    rw [hs.client] at hup hfs ⊢
    rw [hfs, sketch_fromWelcome_append (hi.mirrored n p hp hobs (hr.up hup)), draws_dull hdull,
      floor_congr hr.kinds hgoal]
  · intro c hc f hf
    obtain ⟨fs, hfs, hdull⟩ := framesTo_dull hw c
    rw [hfs] at hf
    rw [hr.wire.name] at hc
    rcases List.mem_append.mp hf with hf | hf
    · exact hi.unmet c hc f hf
    · exact outline_dull (hdull f hf)

theorem dull_murmur (e : Effect) (he : e.murmur = true) : e.Dull := by
  unfold Effect.Dull
  split
  · unfold Effect.murmur at he
    split at he
    · next heq => cases heq; rfl
    · next heq => cases heq; rfl
    · cases he
    · cases he
    · next hsend _ => exact absurd rfl (hsend _ _ _ _)
  · trivial

theorem wrote_dull_event (h : Hub) {e : HubEvent} (he : (Frame.event e).scenic = false) :
    Wrote Effect.Dull h (h.emitEvent env e none) :=
  wrote_emitEvent env h e none (fun _ _ _ => he) trivial

/-! ## Events that change the floor -/

theorem unmet_emitEvent (hu : h.Unmet) (e : HubEvent) (skip : Option Str) :
    (h.emitEvent env e skip).Unmet := by
  intro c hc f hf
  obtain ⟨k, hlog, -⟩ := framesTo_emitEvent env h e skip c
  rw [hlog] at hf
  rw [(le_emitEvent env h e skip).name] at hc
  rcases List.mem_append.mp hf with hf | hf
  · exact hu c hc f hf
  · rw [List.eq_of_mem_replicate hf]
    rfl

/-- What an event draws for a connected observer. -/
theorem sketch_emitEvent {v : Picture} (hp : h.get? n = some p) (hobs : p.isObserver = true)
    (e : HubEvent) {skip : Option Str} (hskip : skip ≠ some p.name)
    (hup : (h.emitEvent env e skip).up p.client = true)
    (hv : sketch n (fromWelcome (framesTo p.client h.wire.log)) = some v) :
    sketch n (fromWelcome (framesTo p.client (h.emitEvent env e skip).wire.log)) =
      some (draw n v (.event e)) := by
  obtain ⟨k, hlog, hpos, -⟩ := framesTo_emitEvent env h e skip p.client
  have hk : 0 < k := hpos hup p (Dict.mem_values_iff.mpr ⟨n, hp⟩) rfl hobs hskip
  rw [hlog, sketch_fromWelcome_append hv, draws_event e hk]

theorem Watched.flagged (hi : h.Watched) (c : Command) :
    ((h.flags env c).emitEvent env (h.commandEvent env c) none).Watched := by
  have hwire : (h.flags env c).wire = h.wire := by cases c <;> rfl
  have hget : ∀ m, (h.flags env c).get? m = h.get? m := by intro m; cases c <;> rfl
  have hunmet : (h.flags env c).Unmet := by
    unfold Unmet
    rw [hwire]
    exact hi.unmet
  refine ⟨?_, unmet_emitEvent hunmet _ _⟩
  intro n p hp hobs hup
  have hp : (h.flags env c).get? n = some p := hp
  have hup₀ : h.up p.client = true := by
    have := (le_emitEvent env (h.flags env c) (h.commandEvent env c) none).down p.client hup
    rw [hwire] at this
    exact this
  have hv : sketch n (fromWelcome (framesTo p.client (h.flags env c).wire.log)) =
      some (h.floor n) := by
    rw [hwire]
    exact hi.mirrored n p (by rw [← hget]; exact hp) hobs hup₀
  rw [sketch_emitEvent hp hobs (h.commandEvent env c) (by simp) hup hv]
  cases c <;> rfl

variable (env) in
/-- A leave, up to its event. -/
theorem leave_eq (h : Hub) (m : Str) (q : Participant) :
    ∃ k : Hub, h.leave env m q = k.emitEvent env (.peerLeft m) none ∧ k.wire = h.wire ∧
      k.participants = h.participants.erase m ∧ k.goal = h.goal :=
  ⟨_, rfl, rfl, rfl, rfl⟩

theorem Watched.left (hi : h.Watched) (m : Str) (q : Participant) : (h.leave env m q).Watched := by
  obtain ⟨k, heq, hwire, hparts, hgoal⟩ := leave_eq env h m q
  have hget : ∀ x, k.get? x = if x = m then none else h.get? x := by
    intro x
    rw [get?, hparts]
    exact Dict.get?_erase _ _ _
  have hunmet : k.Unmet := by
    unfold Unmet
    rw [hwire]
    exact hi.unmet
  rw [heq]
  refine ⟨?_, unmet_emitEvent hunmet _ _⟩
  intro n p hp hobs hup
  have hp : k.get? n = some p := hp
  have hp₀ : h.get? n = some p := by
    rw [hget] at hp
    split at hp
    · cases hp
    · exact hp
  have hup₀ : h.up p.client = true := by
    have := (le_emitEvent env k (.peerLeft m) none).down p.client hup
    rw [hwire] at this
    exact this
  have hv : sketch n (fromWelcome (framesTo p.client k.wire.log)) = some (h.floor n) := by
    rw [hwire]
    exact hi.mirrored n p hp₀ hobs hup₀
  rw [sketch_emitEvent hp hobs (.peerLeft m) (by simp) hup hv, draw, floor, floor,
    Option.some.injEq, Picture.mk.injEq]
  refine ⟨funext fun x => ?_, hgoal.symm⟩
  have hx : (k.emitEvent env (.peerLeft m) none).get? x = k.get? x := rfl
  rw [hx, hget, Function.update_apply]
  by_cases hxm : x = m
  · rw [if_pos hxm, if_pos hxm]
    simp
  · rw [if_neg hxm, if_neg hxm]

/-! ## A roster and a welcome show the floor -/

/-- The kinds on the floor, as a frame lists them. -/
theorem get?_kinds (hn : h.Named) (m : Str) :
    (Dict.ofList (h.participants.values.map fun q => (q.name, q.kind))).get? m =
      (h.get? m).map Participant.kind := by
  have hlist : h.participants.values.map (fun q => (q.name, q.kind)) =
      (h.participants.map Participant.kind).entries := by
    rw [Dict.values, Dict.map, List.map_map]
    refine List.map_congr_left fun e he => ?_
    rw [Function.comp_apply, hn e.1 e.2 (Dict.get?_eq_some_iff.mpr he)]
  rw [hlist, Dict.get?_ofList (h.participants.map Participant.kind).nodup]
  exact Dict.get?_map h.participants Participant.kind m

theorem Watched.polled (hi : h.Watched) (hw : h.Wf) (m : Str) (seq : Option Int) :
    (h.handleRoster env m seq).Watched := by
  cases hq : h.get? m with
  | none =>
    rw [handleRoster, hq]
    exact hi
  | some q =>
    rw [handleRoster, hq]
    constructor
    · intro n p hp hobs hup
      have hp : h.get? n = some p := hp
      have hup₀ : h.up p.client = true := (Wire.le_send env h.wire _ _ _).down p.client hup
      have hv := hi.mirrored n p hp hobs hup₀
      have hlog := framesTo_send env h.wire q.name q.client (.roster h.round h.maxRounds h.frozen
        h.muted seq h.goal (h.participants.values.map h.rosterPeer)) p.client
      refine Eq.trans (congrArg (fun fs => sketch n (fromWelcome fs)) hlog) ?_
      rw [sketch_fromWelcome_append hv]
      show _ = some (h.floor n)
      split
      · rw [List.foldl_cons, List.foldl_nil, draw, floor, Option.some.injEq, Picture.mk.injEq,
          List.map_map]
        refine ⟨funext fun x => ?_, rfl⟩
        rw [lineup]
        by_cases hx : x = n
        · rw [if_pos hx, if_pos hx]
        · rw [if_neg hx, if_neg hx]
          exact get?_kinds hw.named x
      · rfl
    · intro c hc f hf
      have hlog := framesTo_send env h.wire q.name q.client (.roster h.round h.maxRounds h.frozen
        h.muted seq h.goal (h.participants.values.map h.rosterPeer)) c
      have hf : f ∈ framesTo c (h.wire.send env q.name q.client (.roster h.round h.maxRounds h.frozen
        h.muted seq h.goal (h.participants.values.map h.rosterPeer))).log := hf
      rw [hlog] at hf
      rcases List.mem_append.mp hf with hf | hf
      · exact hi.unmet c hc f hf
      · split at hf
        · rw [List.mem_singleton.mp hf]
          rfl
        · cases hf

variable (env) in
/-- The picture of a welcome. -/
theorem outline_welcome (hn : h.Named) (p : Participant) :
    outline (welcome env h p) = some (h.floor p.name) := by
  rw [welcome, outline, floor, Option.some.injEq, Picture.mk.injEq, List.map_map]
  refine ⟨funext fun m => ?_, rfl⟩
  have hfilter : (h.participants.values.filter (·.name ≠ p.name)).map
        ((fun p : Peer => (p.name, p.kind)) ∘ fun q => ⟨q.name, q.kind, q.role, q.state⟩) =
      (h.participants.values.map fun q => (q.name, q.kind)).filter fun e => e.1 ≠ p.name := by
    rw [List.filter_map]
    rfl
  rw [hfilter, Dict.get?_ofList_filter, get?_kinds hn]

/-! ## Joins -/

theorem dull_giveBacklog (h : Hub) (n : Str) : Wrote Effect.Dull h (h.giveBacklog env n) := by
  unfold giveBacklog
  split
  · exact wrote_nothing rfl
  · simp only
    split
    · split
      · exact wrote_nothing rfl
      · exact wrote_deliver env h n _ (fun _ _ _ _ _ => rfl) fun _ _ _ _ _ _ _ => trivial
    · exact wrote_nothing rfl

variable (env) in
/-- A join: the welcome, the backlog, and the event. -/
theorem greet_eq (hn : h.Named) (n : Str) (p : Participant) (rejoined : Bool) :
    ∃ k : Hub, h.greet env n p rejoined =
        k.emitEvent env (.peerJoined n p.kind p.role) (some n) ∧
      Wrote Effect.Dull (h.send env p (welcome env h p)) k ∧
      (h.send env p (welcome env h p)).Roster k ∧ k.goal = h.goal := by
  have hgoal : ∀ k : Hub, (k.giveBacklog env n).goal = k.goal := fun k =>
    congrArg Settings.goal (settings_giveBacklog env k n)
  have hkeep : ∀ k : Hub, k.Roster k.touchActivity := fun k =>
    (keeps_touchActivity (S := ∅) (T := ∅) (E := True) k).toRoster
  have hnamed : (h.send env p (welcome env h p)).Named := hn
  unfold greet
  simp only
  split
  · refine ⟨_, rfl, (dull_giveBacklog _ n).trans (wrote_nothing rfl), ?_, hgoal _⟩
    exact (keeps_giveBacklog env (E := True) hnamed n).toRoster.trans (hkeep _)
  · exact ⟨_, rfl, wrote_nothing rfl, hkeep _, rfl⟩

/-- `m` has come in as `p`, over the client `c` that had no name. -/
structure Arrival (h e : Hub) (m : Str) (p : Participant) (c : ClientId) : Prop where
  wf : e.Wf
  here : e.get? m = some p
  client : p.client = c
  new : (h.wire.clients c).name = []
  log : e.wire.log = h.wire.log
  up : ∀ d, e.up d = h.up d
  others : ∀ n, n ≠ m → e.get? n = h.get? n
  goal : e.goal = h.goal
  names : ∀ d, d ≠ c → (e.wire.clients d).name = (h.wire.clients d).name

theorem arrival_enroll (hw : h.Wf) {c : ClientId} {f : Hello} (hc : (h.wire.clients c).name = []) :
    Arrival h (h.enroll c f.name (admitted env h c f)) f.name (admitted env h c f) c where
  wf := hw.enroll hc (admitted_name env hw c f) (nameRe_ne_nil f.name_ok.2) (admitted_client env h c f)
  here := get?_enroll_self ..
  client := admitted_client env h c f
  new := hc
  log := rfl
  up d := by
    simp only [Hub.up, enroll, Function.update_apply]
    split
    · next hd => rw [hd]
    · rfl
  others n hn := get?_enroll_of_ne h c hn _
  goal := rfl
  names d hd := by simp only [enroll, Function.update_of_ne hd]

section
variable {e k : Hub} {m : Str} {c : ClientId}

/-- What a client has been sent by the end of the backlog. -/
theorem Arrival.sent (ha : Arrival h e m p c)
    (hdull : Wrote Effect.Dull (e.send env p (welcome env e p)) k) (d : ClientId) :
    ∃ fs, framesTo d k.wire.log = framesTo d h.wire.log ++
        ((if e.up c = true ∧ c = d then [welcome env e p] else []) ++ fs) ∧
      ∀ g ∈ fs, g.scenic = false := by
  obtain ⟨fs, hfs, hplain⟩ := framesTo_dull hdull d
  have hwelcome : framesTo d (e.send env p (welcome env e p)).wire.log =
      framesTo d h.wire.log ++ if e.up c = true ∧ c = d then [welcome env e p] else [] := by
    have hsend := framesTo_send env e.wire p.name p.client (welcome env e p) d
    rw [ha.client, ha.log] at hsend
    rw [Hub.send, ha.client]
    exact hsend
  refine ⟨fs, ?_, hplain⟩
  rw [hfs, hwelcome, List.append_assoc]

/-- The newcomer sees the floor it was welcomed to. -/
theorem Arrival.newcomer (ha : Arrival h e m p c) (hi : h.Watched)
    (hdull : Wrote Effect.Dull (e.send env p (welcome env e p)) k)
    (hr : (e.send env p (welcome env e p)).Roster k) (hgoal : k.goal = e.goal)
    (hup : k.up c = true) :
    sketch m (fromWelcome (framesTo c k.wire.log)) = some (k.floor m) := by
  obtain ⟨fs, hfs, hplain⟩ := ha.sent hdull c
  have hupe : e.up c = true := (Wire.le_send env e.wire _ _ _).down c (hr.up hup)
  have hout := outline_welcome env ha.wf.named p
  rw [ha.wf.named m p ha.here] at hout
  have hstart : fromWelcome ([welcome env e p] ++ fs) = welcome env e p :: fs := by
    rw [fromWelcome, List.singleton_append, List.dropWhile_cons_of_neg]
    rw [hout]
    exact Bool.false_ne_true
  rw [hfs, if_pos ⟨hupe, rfl⟩, fromWelcome_of_none (hi.unmet c ha.new), hstart, sketch, hout,
    Option.map_some, draws_dull hplain, Option.some.injEq]
  exact (floor_congr hr.kinds hgoal m).symm

/-- The others are told of it by the event. -/
theorem Arrival.other (ha : Arrival h e m p c) (hi : h.Watched) (hw : h.Wf)
    (hdull : Wrote Effect.Dull (e.send env p (welcome env e p)) k)
    (hr : (e.send env p (welcome env e p)).Roster k) {n : Str} {q : Participant} (hn : n ≠ m)
    (hq : k.get? n = some q) (hobs : q.isObserver = true) (hup : k.up q.client = true) :
    sketch n (fromWelcome (framesTo q.client k.wire.log)) = some (h.floor n) := by
  obtain ⟨q₁, hq₁, hs⟩ := hr.back hq
  have hq₁ : h.get? n = some q₁ := (ha.others n hn).symm.trans hq₁
  have hqc : c ≠ q.client := by
    intro hc
    have hown := hw.owns n q₁ hq₁
    rw [← hs.client, ← hc, ha.new] at hown
    exact hw.proper n q₁ hq₁ hown.symm
  obtain ⟨fs, hfs, hplain⟩ := ha.sent hdull q.client
  have hup₁ : h.up q.client = true := by
    rw [← ha.up]
    exact (Wire.le_send env e.wire _ _ _).down q.client (hr.up hup)
  have hbefore := hi.mirrored n q₁ hq₁ (by rw [← hs.isObserver]; exact hobs)
    (by rw [← hs.client]; exact hup₁)
  rw [← hs.client] at hbefore
  rw [hfs, if_neg fun hboth => hqc hboth.2, List.nil_append, sketch_fromWelcome_append hbefore,
    draws_dull hplain]

theorem Arrival.unmet (ha : Arrival h e m p c) (hi : h.Watched)
    (hdull : Wrote Effect.Dull (e.send env p (welcome env e p)) k)
    (hr : (e.send env p (welcome env e p)).Roster k) : k.Unmet := by
  intro d hd g hg
  have hd : (e.wire.clients d).name = [] := by
    rw [hr.wire.name] at hd
    exact hd
  have hdc : d ≠ c := by
    rintro rfl
    have hown := ha.wf.owns m p ha.here
    rw [ha.client, hd] at hown
    exact ha.wf.proper m p ha.here hown.symm
  obtain ⟨fs, hfs, hplain⟩ := ha.sent hdull d
  rw [if_neg fun hboth => hdc hboth.2.symm, List.nil_append] at hfs
  rw [hfs] at hg
  rcases List.mem_append.mp hg with hg | hg
  · exact hi.unmet d ((ha.names d hdc).symm.trans hd) g hg
  · exact outline_dull (hplain g hg)

theorem Arrival.greeted (ha : Arrival h e m p c) (hi : h.Watched) (hw : h.Wf) (rejoined : Bool) :
    (e.greet env m p rejoined).Watched := by
  obtain ⟨k, heq, hdull, hr, hgoal⟩ := greet_eq env ha.wf.named m p rejoined
  have hnamed : k.Named := hr.named ha.wf.named
  rw [heq]
  refine ⟨?_, unmet_emitEvent (ha.unmet hi hdull hr) _ _⟩
  intro n q hq hobs hup
  have hq : k.get? n = some q := hq
  have hupk : k.up q.client = true := (le_emitEvent env k _ _).down q.client hup
  by_cases hn : n = m
  · subst hn
    obtain ⟨q₁, hq₁, hs⟩ := hr.back hq
    have hp : e.get? n = some q₁ := hq₁
    rw [ha.here, Option.some.injEq] at hp
    have hqc : q.client = c := by rw [hs.client, ← hp, ha.client]
    rw [hqc] at hupk ⊢
    obtain ⟨j, hlog, -, hzero⟩ := framesTo_emitEvent env k (.peerJoined n p.kind p.role) (some n) c
    have hj : j = 0 := by
      apply hzero
      intro r hr' hrc
      obtain ⟨x, hx⟩ := Dict.mem_values_iff.mp hr'
      obtain ⟨r₁, hr₁, hrs⟩ := hr.back hx
      have hr₁ : e.get? x = some r₁ := hr₁
      have hxn : x = n := ha.wf.client_inj hr₁ ha.here (by rw [← hrs.client, hrc, ha.client])
      rw [hnamed x r hx, hxn]
    rw [hlog, hj, List.replicate_zero, List.append_nil]
    exact ha.newcomer hi hdull hr hgoal hupk
  · have hskip : some m ≠ some q.name := by
      rw [hnamed n q hq, Ne, Option.some.injEq]
      exact fun h => hn h.symm
    rw [sketch_emitEvent hq hobs _ hskip hup (ha.other hi hw hdull hr hn hq hobs hupk), draw, floor,
      floor, Option.some.injEq, Picture.mk.injEq]
    refine ⟨funext fun x => ?_, (hgoal.trans ha.goal).symm⟩
    have hx : ((k.emitEvent env (.peerJoined m p.kind p.role) (some m)).get? x).map Participant.kind =
        (e.get? x).map Participant.kind := hr.kinds x
    rw [hx, Function.update_apply]
    by_cases hxm : x = m
    · rw [hxm, ha.here, if_pos rfl, if_neg fun h => hn h.symm]
      rfl
    · rw [if_neg hxm, ha.others x hxm]

end

theorem Watched.joined (hi : h.Watched) (hw : h.Wf) {c : ClientId} {f : Hello}
    (hc : (h.wire.clients c).name = []) : (registered env c f h).Watched :=
  (arrival_enroll hw hc).greeted hi hw _

/-! ## Operations -/

theorem dull_notify (h : Hub) (title message : Str) : Wrote Effect.Dull h (h.notify env title message) :=
  wrote_notify env h title message fun _ _ => trivial

theorem Deed.watched (hw : h.Wf) (hd : Deed env A h h') (hi : h.Watched) : h'.Watched := by
  rcases hd.roster hw.named with hr | ⟨n, p, -, rfl⟩ | ⟨c, f, hc, -, -, rfl⟩
  · cases hd with
    | murmured hm => exact hi.dull hr (hm.toQuiet.same Hub.goal fun _ _ => rfl) (hm.wrote dull_murmur)
    | told e he =>
      refine hi.dull hr rfl (wrote_dull_event h ?_)
      unfold HubEvent.Passing at he
      split at he
      · rfl
      · rfl
      · exact he.elim
    | recorded r => exact hi.dull hr rfl (wrote_one rfl trivial)
    | timed => exact hi.dull hr rfl (wrote_nothing rfl)
    | mailed => exact hi.dull hr rfl (wrote_nothing rfl)
    | mailedAll => exact hi.dull hr rfl (wrote_nothing rfl)
    | counted hc =>
      rw [hc.rest] at hr ⊢
      exact hi.dull hr rfl (wrote_nothing rfl)
    | @reported n p f hp =>
      refine hi.dull hr ?_ (wrote_nothing ?_)
      · rw [report, hp]
        rfl
      · rw [report, hp]
        rfl
    | inferred => exact hi.dull hr rfl (wrote_nothing rfl)
    | delivered msgs =>
      exact hi.dull hr (congrArg Settings.goal (settings_deliver env h _ msgs))
        (wrote_deliver env h _ msgs (fun _ _ _ _ _ => rfl) fun _ _ _ _ _ _ _ => trivial)
    | limited =>
      have hgoal : (h.announceLimit env).goal = h.goal :=
        congrArg Settings.goal (settings_notify env _ _ _)
      exact hi.dull hr hgoal (wrote_announceLimit env h (fun _ _ => trivial) (fun _ _ _ _ _ => rfl)
        fun _ _ _ _ => trivial)
    | ended =>
      exact hi.dull hr (congrArg Settings.goal (settings_checkSessionDone env h))
        (wrote_checkSessionDone env h (fun _ _ => trivial) (fun _ _ _ _ => rfl) fun _ _ _ => trivial)
    | marked => exact hi.dull hr rfl (wrote_nothing rfl)
    | @remembered n p q f =>
      have hgoal : (h.countSay p f).goal = h.goal := by
        unfold countSay noteSay
        simp only
        split
        · split <;> rfl
        · rfl
      have hlog : (h.countSay p f).wire = h.wire := by
        unfold countSay noteSay
        simp only
        split
        · split <;> rfl
        · rfl
      refine hi.dull hr hgoal (wrote_one (e := .append (h.countSay p f).wall (.msg (h.countSay p f).round
        (recordOf (h.sayMsg p f)))) ?_ trivial)
      rw [← hlog]
      rfl
    | @answered n p q f id k =>
      refine hi.dull hr (congrArg Settings.goal (settings_answer env h p f id k)) ?_
      have hsaid : Wrote Effect.Dull h (h.send env p (.said id k f.seq)) := wrote_one rfl rfl
      unfold answer
      simp only
      split
      · exact (hsaid.trans (dull_notify _ _ _)).trans (wrote_nothing rfl)
      · exact hsaid.trans (wrote_nothing rfl)
    | flagged => exact hi.flagged _
    | okayed => exact hi.dull hr rfl (wrote_one rfl rfl)
    | polled n seq => exact hi.polled hw n seq
    | alarmed n =>
      by_cases hdue : AlarmDue env h n
      · obtain ⟨detail, title, message, heq⟩ := notifyBlocked_due hdue
        rw [heq] at hr ⊢
        have hevent : Wrote Effect.Dull h ({ h with blockedNotified := h.blockedNotified ++ [n] }.emitEvent
            env (.blocked n detail) none) :=
          wrote_dull_event { h with blockedNotified := h.blockedNotified ++ [n] } rfl
        exact hi.dull hr (congrArg Settings.goal (settings_notify env _ _ _))
          (hevent.trans (dull_notify _ _ _))
      · rw [notifyBlocked_not_due hdue]
        exact hi
    | left hp => exact hi.left _ _
    | joined hc => exact hi.joined hw hc
  · exact hi.left n p
  · exact hi.joined hw hc

theorem Watched.checkQuorum (hi : h.Watched) : (h.checkQuorum env).Watched := by
  have hr : h.Roster (h.checkQuorum env) :=
    (keeps_checkQuorum (S := ∅) (T := ∅) (E := True) env h).toRoster
  by_cases hdue : h.QuorumDue
  · obtain ⟨detail, k, hk, hcases⟩ := checkQuorum_due env hdue
    have hevent : Wrote Effect.Dull h k := by
      rw [hk]
      exact wrote_dull_event { h with quorumLatched := true } rfl
    have hgoal : k.goal = h.goal := by rw [hk]; rfl
    rcases hcases with heq | ⟨title, message, heq⟩
    · rw [heq] at hr ⊢
      exact hi.dull hr hgoal hevent
    · rw [heq] at hr ⊢
      exact hi.dull hr ((congrArg Settings.goal (settings_notify env k _ _)).trans hgoal)
        (hevent.trans (dull_notify k _ _))
  · rw [checkQuorum_not_due hdue]
    exact hi

theorem Watched.checkStall (hi : h.Watched) : (h.checkStall env).Watched := by
  have hr : h.Roster (h.checkStall env) :=
    (keeps_checkStall (S := ∅) (T := ∅) (E := True) env h).toRoster
  by_cases hdue : StallDue env h
  · obtain ⟨title, message, heq⟩ := checkStall_due hdue
    rw [heq] at hr ⊢
    have hevent : Wrote Effect.Dull h ({ h with stallLatched := true }.emitEvent env
        (.stall (h.stallDetail env)) none) := wrote_dull_event { h with stallLatched := true } rfl
    exact hi.dull hr (congrArg Settings.goal (settings_notify env _ _ _))
      (hevent.trans (dull_notify _ _ _))
  · rw [checkStall_not_due hdue]
    exact hi

theorem handled_watched : Handled env anyFrame Watched :=
  { handles_deeds (A := anyFrame) fun _ _ hw hd hi => hd.watched hw hi with
    checkQuorum := fun _ _ hi => hi.checkQuorum
    checkStall := fun _ _ hi => hi.checkStall }

/-! ## Connected clients are registered -/

/-- Who is connected under a name is registered under it. -/
def Seated (h : Hub) : Prop :=
  ∀ c, h.up c = true → (h.wire.clients c).name ≠ [] →
    ∃ p, h.get? (h.wire.clients c).name = some p ∧ p.client = c

theorem Seated.roster (hi : h.Seated) (hr : h.Roster h') : h'.Seated := by
  intro c hup hname
  rw [hr.wire.name] at hname ⊢
  obtain ⟨p, hp, hclient⟩ := hi c (hr.up hup) hname
  obtain ⟨p', hp', hs⟩ := hr.same _ p hp
  exact ⟨p', hp', hs.client.trans hclient⟩

theorem Seated.disconnect (hi : h.Seated) (c : ClientId) : (h.disconnect env c).Seated := by
  rcases disconnect_cases env h c with ⟨p, hp, hclient, heq⟩ | ⟨-, heq⟩
  · rw [heq]
    have hdone : Keeps Set.univ Set.univ True (h.leave env (h.wire.clients c).name p)
        ((h.leave env (h.wire.clients c).name p).checkSessionDone env) := keeps_checkSessionDone env _
    have hr : (h.leave env (h.wire.clients c).name p).Roster
        (((h.leave env (h.wire.clients c).name p).checkSessionDone env).close c) :=
      (hdone.trans (keeps_close _ c)).toRoster
    intro d hup hname
    have hdc : d ≠ c := by
      rintro rfl
      simp [up, close, Wire.close] at hup
    have hle := (le_leave env h (h.wire.clients c).name p).trans hr.wire
    rw [hle.name] at hname ⊢
    obtain ⟨q, hq, hqd⟩ := hi d (hle.down d hup) hname
    -- the name that is given up belongs to `c`
    have hother : (h.wire.clients d).name ≠ (h.wire.clients c).name := by
      intro hsame
      rw [hsame, hp, Option.some.injEq] at hq
      exact hdc (by rw [← hqd, ← hq, hclient])
    have hq' : (h.leave env (h.wire.clients c).name p).get? (h.wire.clients d).name = some q := by
      rw [get?_leave_of_ne env h hother, hq]
    obtain ⟨q', hq', hs⟩ := hr.same _ q hq'
    exact ⟨q', hq', hs.client.trans hqd⟩
  · rw [heq]
    exact hi.roster (keeps_close (S := ∅) (T := ∅) (E := True) h c).toRoster

theorem Seated.enroll (hi : h.Seated) {c : ClientId} {f : Hello}
    (hfree : h.get? f.name = none) : (h.enroll c f.name (admitted env h c f)).Seated := by
  intro d hup hname
  have hup : h.up d = true := by
    simp only [Hub.up, Hub.enroll, Function.update_apply] at hup
    split at hup
    · next hd => rw [hd]; exact hup
    · exact hup
  by_cases hd : d = c
  · have hself : ((h.enroll c f.name (admitted env h c f)).wire.clients d).name = f.name := by
      simp only [Hub.enroll, hd, Function.update_self]
    rw [hself, hd]
    exact ⟨_, get?_enroll_self .., admitted_client env h c f⟩
  · have hother : ((h.enroll c f.name (admitted env h c f)).wire.clients d).name =
        (h.wire.clients d).name := by
      simp only [Hub.enroll, Function.update_of_ne hd]
    rw [hother] at hname ⊢
    obtain ⟨p, hp, hclient⟩ := hi d hup hname
    refine ⟨p, ?_, hclient⟩
    rw [get?_enroll_of_ne h c _ _, hp]
    intro hsame
    rw [hsame, hfree] at hp
    cases hp

theorem handled_seated : Handled env anyFrame Seated :=
  handled_of_ends env (fun _ _ _ hr hi => hi.roster hr) (fun _ c _ hi => hi.disconnect c)
    fun _ _ _ _ _ hfree _ hi => hi.enroll hfree

end

/-! ## Runs -/

section
variable {F G : Type} [PyFloat F]

end

end Hub

end Moot
