import Moot.Lib.Walk
import Moot.Hub.Accounting
import Moot.Hub.Purse
import Moot.Hub.Stroke

/-!
# Turns

A registration has a seat: live or dead, an agent's or an observer's, in one of
the three states and not idle since some time.  `Seat.Moves` says what can happen
to a seat: an agent is handed a frame while it is idle, and is busy then.

Proved here: `turn_discipline`.  Every run is, for every name, a walk of its seat
that hands out the frames the hub delivers; between two frames to an agent it was
relieved; and an agent that is idle and connected has nothing queued.
-/

namespace Moot
open Py Proto

/-- The turn of a registration. -/
structure Seat where
  live : Bool
  observer : Bool
  idleEvents : Bool
  state : State
  since : Rat

/-- What happens to a seat, and when. -/
inductive Move
  | handed (f : List Msg) (t : Rat)
  | shown (f : List Msg)
  | reported (s : State) (t : Rat)
  | said
  | timedOut (t : Rat)
  | left
  | expired
  | reclaimed (observer idleEvents : Bool)
  | joined (observer idleEvents : Bool)

/-- The frame a move hands out. -/
def Move.frame? : Move → Option (List Msg)
  | .handed f _ | .shown f => some f
  | _ => none

/-- The agent is idle again, or its place is free. -/
def Move.relieves : Move → Bool
  | .reported s _ => s = .idle
  | .said | .timedOut _ | .reclaimed .. | .expired => true
  | _ => false

/-- The moves of a seat.  An agent without the `idle-events` capability is taken to be idle when
it says something, or when it has not been idle for longer than `limit`. -/
inductive Seat.Moves (limit : Rat) : Option Seat → Move → Option Seat → Prop
  | handed {s : Seat} (f : List Msg) (t : Rat) (live : s.live = true) (agent : s.observer = false)
      (idle : s.state = .idle) :
      Moves limit (some s) (.handed f t) (some { s with state := .busy, since := t })
  | shown {s : Seat} (f : List Msg) (live : s.live = true) (observer : s.observer = true) :
      Moves limit (some s) (.shown f) (some s)
  | reported {s : Seat} (state : State) (t : Rat) (live : s.live = true) :
      Moves limit (some s) (.reported state t)
        (some { s with state := state, since := if state = .idle then s.since else t })
  | said {s : Seat} (live : s.live = true) (caps : s.idleEvents = false) (busy : s.state ≠ .idle) :
      Moves limit (some s) .said (some { s with state := .idle })
  | timedOut {s : Seat} (t : Rat) (live : s.live = true) (agent : s.observer = false)
      (caps : s.idleEvents = false) (busy : s.state ≠ .idle) (late : limit < t - s.since) :
      Moves limit (some s) (.timedOut t) (some { s with state := .idle })
  | left {s : Seat} (live : s.live = true) :
      Moves limit (some s) .left (some { s with live := false })
  | expired {s : Seat} (dead : s.live = false) : Moves limit (some s) .expired none
  | reclaimed {s : Seat} (observer idleEvents : Bool) (dead : s.live = false) :
      Moves limit (some s) (.reclaimed observer idleEvents)
        (some ⟨true, observer, idleEvents, .idle, s.since⟩)
  | joined (observer idleEvents : Bool) :
      Moves limit none (.joined observer idleEvents) (some ⟨true, observer, idleEvents, .idle, 0⟩)

/-- Nobody is there, or nobody is at work. -/
def Seat.Ready (s : Option Seat) : Prop := ∀ t ∈ s, t.state = .idle

/-- The seat of a participant. -/
def Participant.seat (p : Participant) (live : Bool) : Seat :=
  ⟨live, p.isObserver, p.hasIdleEvents, p.state, p.busySince⟩

/-- The participant once it is handed a frame. -/
def Participant.occupied (p : Participant) (now : Rat) : Participant :=
  { p with state := .busy, busySince := now }

namespace Hub

/-- The seat of the registration `n`. -/
def seat (h : Hub) (n : Str) : Option Seat :=
  ((h.get? n).map (·.seat true)).or ((h.dead.get? n).map (·.seat false))

/-- What a frame that meets `A` can move, at the time `now`, with no change but those in `C`. -/
def Warrant (A : Filter) (C : Set Change) (n : Str) (now : Rat) : Move → Prop
  | .handed _ t => t = now
  | .timedOut t => t = now ∧ .overdue n ∈ C
  | .expired => .overdue n ∈ C
  | .reported s t => t = now ∧ .relieved n ∈ C ∧ ∃ kind f, A n kind (.state f) ∧ f.state = s
  | .said => .relieved n ∈ C ∧ ∃ kind f, A n kind (.say f)
  | .reclaimed obs idle | .joined obs idle =>
    .enrolled n ∈ C ∧ ∃ f : Hello, f.name = n ∧ A n f.kind (.hello f) ∧
      obs = decide (f.kind = observerKind) ∧ idle = f.caps.contains Moot.idleEvents
  | .shown _ | .left => True

/-- The step moves the seat of `n`, and hands out what it is delivered. -/
structure Plays (env : Env) (A : Filter) (C : Set Change) (n : Str) (ms : List Move) (h h' : Hub) :
    Prop where
  walk : Walk (Seat.Moves env.config.assumeIdleAfter) (h.seat n) ms (h'.seat n)
  frames : deliveries n h'.wire.log = deliveries n h.wire.log ++ ms.filterMap Move.frame?
  warrant : ∀ m ∈ ms, Warrant A C n h.now m
  now : h'.now = h.now

section
variable {env : Env} {A : Filter} {C : Set Change} {n : Str} {h h' h'' : Hub} {ms ms' : List Move}

theorem Plays.refl (h : Hub) : Plays env A C n [] h h :=
  ⟨.nil _, by simp, by simp, rfl⟩

theorem Plays.trans (hab : Plays env A C n ms h h') (hbc : Plays env A C n ms' h' h'') :
    Plays env A C n (ms ++ ms') h h'' := by
  refine ⟨hab.walk.append hbc.walk, ?_, fun m hm => ?_, hbc.now.trans hab.now⟩
  · rw [hbc.frames, hab.frames, List.filterMap_append, List.append_assoc]
  · rcases List.mem_append.mp hm with hm | hm
    · exact hab.warrant m hm
    · rw [← hab.now]
      exact hbc.warrant m hm

/-- A step that leaves the seat and delivers nothing. -/
theorem plays_still (hseat : h'.seat n = h.seat n)
    (hdel : deliveries n h'.wire.log = deliveries n h.wire.log) (hnow : h'.now = h.now) :
    Plays env A C n [] h h' := by
  refine ⟨?_, by simp [hdel], by simp, hnow⟩
  rw [hseat]
  exact .nil _

/-- A step of one move. -/
theorem plays_one {m : Move} (hmove : Seat.Moves env.config.assumeIdleAfter (h.seat n) m (h'.seat n))
    (hdel : deliveries n h'.wire.log = deliveries n h.wire.log ++ m.frame?.toList)
    (hwarrant : Warrant A C n h.now m) (hnow : h'.now = h.now) : Plays env A C n [m] h h' := by
  refine ⟨.one hmove, ?_, by simpa using hwarrant, hnow⟩
  rw [hdel]
  cases hm : m.frame? with
  | none => simp [hm]
  | some f => simp [hm]

theorem seat_of_get? {p : Participant} (hp : h.get? n = some p) :
    h.seat n = some (p.seat true) := by
  rw [seat, hp]
  rfl

theorem seat_of_none (hp : h.get? n = none) : h.seat n = (h.dead.get? n).map (·.seat false) := by
  rw [seat, hp]
  rfl

theorem seat_congr (hp : h'.get? n = h.get? n) (hd : h'.dead = h.dead) :
    h'.seat n = h.seat n := by rw [seat, seat, hp, hd]

/-- The seat does not depend on what an update leaves of a participant. -/
theorem seat_map {g : Participant → Participant} (hp : h'.get? n = (h.get? n).map g)
    (hd : h'.dead = h.dead) (hg : ∀ q, (g q).seat true = q.seat true) :
    h'.seat n = h.seat n := by
  cases hq : h.get? n with
  | none =>
    rw [hq] at hp
    rw [seat_of_none hp, seat_of_none hq, hd]
  | some q =>
    rw [hq] at hp
    rw [seat_of_get? hp, seat_of_get? hq, hg]

theorem seat_modify (h : Hub) (m : Str) {g : Participant → Participant}
    (hg : ∀ q, (g q).seat true = q.seat true) : (h.modify m g).seat n = h.seat n := by
  by_cases hn : n = m
  · subst hn
    exact seat_map (get?_modify_self h n g) rfl hg
  · exact seat_congr (get?_modify_of_ne h hn g) rfl

variable (env)

theorem seat_checkSessionDone (h : Hub) : (h.checkSessionDone env).seat n = h.seat n := by
  refine seat_map (get?_checkSessionDone env h n)
    (keeps_checkSessionDone (S := ∅) (T := ∅) env h).dead fun q => ?_
  split <;> rfl

theorem plays_checkSessionDone (h : Hub) : Plays env A C n [] h (h.checkSessionDone env) := by
  have hk : Keeps ∅ ∅ True h (h.checkSessionDone env) := keeps_checkSessionDone env h
  exact plays_still (seat_checkSessionDone env h) (hk.delivered n (Set.notMem_empty n)) hk.now

theorem plays_checkRoundLimit (h : Hub) : Plays env A C n [] h (h.checkRoundLimit env) := by
  have hk : Keeps ∅ ∅ True h (h.checkRoundLimit env) := keeps_checkRoundLimit env h
  exact plays_still
    (seat_congr (congrArg (Dict.get? · n) (participants_checkRoundLimit env h)) hk.dead)
    (hk.delivered n (Set.notMem_empty n)) hk.now

/-! ## Deliveries -/

theorem now_deliver (h : Hub) (m : Str) (msgs : List Msg) :
    (h.deliver env m msgs).now = h.now := by
  cases hp : h.get? m with
  | none => rw [deliver, hp]
  | some p =>
    rw [deliver_eq env hp]
    split <;> rfl

theorem now_deliverAll (h : Hub) (bs : List (Str × List Msg)) :
    (h.deliverAll env bs).now = h.now := by
  induction bs generalizing h with
  | nil => rfl
  | cons b bs ih => exact (ih _).trans (now_deliver env h b.1 b.2)

/-- One delivery, to a participant that is idle if it is an agent. -/
theorem plays_deliver (hn : h.Named) {m : Str} {p : Participant} (hp : h.get? m = some p)
    (hidle : p.isObserver = false → p.state = .idle) (msgs : List Msg) (n : Str) :
    ∃ ms, Plays env A C n ms h (h.deliver env m msgs) := by
  have hk : Keeps ∅ {m} True h (h.deliver env m msgs) := keeps_deliver env hn m msgs
  by_cases hm : n = m
  · subst hm
    have hget := get?_deliver env hp msgs
    have hdel := deliveries_deliver env hn hp msgs
    by_cases hobs : p.isObserver = true
    · rw [if_pos hobs] at hget
      refine ⟨[.shown (sortById msgs)], plays_one ?_ hdel trivial hk.now⟩
      rw [seat_of_get? hget, seat_of_get? hp]
      exact .shown _ rfl hobs
    · rw [if_neg hobs] at hget
      rw [Bool.not_eq_true] at hobs
      refine ⟨[.handed (sortById msgs) h.now], plays_one ?_ hdel rfl hk.now⟩
      rw [seat_of_get? hget, seat_of_get? hp]
      exact .handed _ _ rfl hobs (hidle hobs)
  · exact ⟨[], plays_still (seat_congr (get?_deliver_of_ne env h hm msgs) hk.dead)
      (hk.delivered n hm) hk.now⟩

/-- A flush, of an idle participant. -/
theorem plays_flush (hn : h.Named) {m : Str} {p : Participant} (hp : h.get? m = some p)
    (hidle : p.state = .idle) (n : Str) : ∃ ms, Plays env A C n ms h (h.flushQueue env m) := by
  by_cases hskip : p.queue = [] ∨ h.up p.client = false
  · rw [flushQueue_skip env hp hskip]
    exact ⟨[], .refl h⟩
  · simp only [not_or, Bool.not_eq_false] at hskip
    obtain ⟨h₁, hh₁, h₂, hh₂, heq⟩ := flushQueue_eq env hp hskip.1 hskip.2
    have hself : (h.modify m (·.flushed env.config)).get? m = some (p.flushed env.config) := by
      rw [get?_modify_self, hp]
      rfl
    have hfirst : Plays env A C n [] h h₁ ∧ h₁.Named ∧ h₁.get? m = some (p.flushed env.config) := by
      have hk : Keeps {m} ∅ True h (h.modify m (·.flushed env.config)) :=
        keeps_modify h m (same_flushed env) (Or.inl trivial)
      have hseat : (h.modify m (·.flushed env.config)).seat n = h.seat n := seat_modify h m fun _ => rfl
      rcases hh₁ with rfl | rfl
      · exact ⟨plays_still hseat rfl rfl, hk.named hn, hself⟩
      · exact ⟨plays_still hseat rfl rfl, hk.named hn, hself⟩
    obtain ⟨hplay, hn₁, hp₁⟩ := hfirst
    obtain ⟨ms, hms⟩ := plays_deliver env (A := A) (C := C) hn₁ hp₁ (fun _ => hidle)
      (p.flushBatch env.config) n
    have hlast : Plays env A C n [] (h₁.deliver env m (p.flushBatch env.config)) h₂ := by
      rcases hh₂ with rfl | rfl
      · exact .refl _
      · exact plays_checkRoundLimit env _
    rw [heq]
    exact ⟨_, ((hplay.trans hms).trans hlast).trans (plays_checkSessionDone env h₂)⟩

/-! ## Routing -/

/-- An agent that gets a delivery is busy. -/
theorem get?_deliverAll_of_mem (h : Hub) (bs : List (Str × List Msg)) {q : Participant}
    (hq : h.get? n = some q) (hobs : q.isObserver = false) (hmem : n ∈ bs.map Prod.fst) :
    (h.deliverAll env bs).get? n = some (q.occupied h.now) := by
  induction bs generalizing h q with
  | nil => cases hmem
  | cons b bs ih =>
    show ((h.deliver env b.1 b.2).deliverAll env bs).get? n = _
    by_cases hn : n = b.1
    · have hfirst : (h.deliver env b.1 b.2).get? n = some (q.occupied h.now) := by
        rw [hn] at hq ⊢
        rw [get?_deliver env hq b.2, if_neg (by simp [hobs])]
        rfl
      by_cases hrest : n ∈ bs.map Prod.fst
      · rw [ih _ hfirst hobs hrest, now_deliver]
        rfl
      · exact get?_deliverAll_of_not env _ bs hfirst fun _ => hrest
    · rw [ih _ ((get?_deliver_of_ne env h hn b.2).trans hq) hobs (by simpa [hn] using hmem),
        now_deliver]

/-- A batch goes to a participant it is made for. -/
theorem mem_batches_iff (hn : h.Named) {q : Participant} (hq : h.get? n = some q)
    (f : Participant → Option (List Msg)) :
    n ∈ (batches f h).map Prod.fst ↔ (f q).isSome = true := by
  refine ⟨fun hmem => ?_, mem_batches hn hq f⟩
  obtain ⟨b, hb, rfl⟩ := List.mem_map.mp hmem
  obtain ⟨r, hr, hfb⟩ := List.mem_filterMap.mp hb
  obtain ⟨m, hm⟩ := Dict.mem_values_iff.mp hr
  obtain ⟨batch, hbatch, rfl⟩ := Option.map_eq_some_iff.mp hfb
  have hname : r.name = m := hn m r hm
  have hsame : h.get? m = some q := by
    rw [← hname]
    exact hq
  rw [show h.get? m = some r from hm, Option.some.injEq] at hsame
  rw [← hsame, hbatch]
  rfl

theorem seat_enqueue (q : Participant) (m : Msg) :
    (q.enqueue env.config m).seat true = q.seat true := by
  unfold Participant.enqueue
  split <;> rfl

theorem seat_routeOne (up : ClientId → Bool) (msg : Msg) (q : Participant) :
    (routeOne env up msg q).participant.seat true = q.seat true := by
  unfold routeOne
  simp only
  split
  · rfl
  split
  · rfl
  split
  · dsimp only
    split <;> rfl
  split
  · rfl
  · exact seat_enqueue env q _

/-- Who is woken is busy after the routing; nobody else moves. -/
theorem get?_route (hn : h.Named) (msg : Msg) {q : Participant} (hq : h.get? n = some q) :
    (h.route env msg).1.get? n = some (if (routeOne env h.up msg q).woken.isSome then
      (routeOne env h.up msg q).participant.occupied h.now
      else (routeOne env h.up msg q).participant) := by
  have hwoken := mem_batches_iff hn hq fun q => (routeOne env h.up msg q).woken
  have hobserved := mem_batches_iff hn hq fun q => (routeOne env h.up msg q).observed
  have hsame := (same_routeOne env h.up msg q).isObserver
  have hloop : ∀ k : Hub, k.participants = (h.mapParticipants fun q =>
      (routeOne env h.up msg q).participant).participants → k.now = h.now →
      ((k.deliverAll env (batches (fun q => (routeOne env h.up msg q).observed) h)).deliverAll env
        (batches (fun q => (routeOne env h.up msg q).woken) h)).get? n =
      some (if (routeOne env h.up msg q).woken.isSome then
        (routeOne env h.up msg q).participant.occupied h.now
        else (routeOne env h.up msg q).participant) := by
    intro k hk hnow
    have hkq : k.get? n = some (routeOne env h.up msg q).participant := by
      have hmap := get?_mapParticipants h (fun q => (routeOne env h.up msg q).participant) n
      rw [hq] at hmap
      exact (congrArg (Dict.get? · n) hk).trans hmap
    have hfirst : (k.deliverAll env (batches (fun q => (routeOne env h.up msg q).observed) h)).get?
        n = some (routeOne env h.up msg q).participant := by
      refine get?_deliverAll_of_not env k _ hkq fun hobs hmem => ?_
      rw [hsame] at hobs
      have hnone : (routeOne env h.up msg q).observed = none := by
        rcases routeOne_cases env h.up msg q with ⟨b, -, hnone, -⟩ | ⟨-, hnone⟩
        · exact hnone
        · exact hnone hobs
      rw [hobserved, hnone] at hmem
      cases hmem
    rcases routeOne_cases env h.up msg q with ⟨b, hb, -, hobs, -⟩ | ⟨hnone, -⟩
    · rw [get?_deliverAll_of_mem env _ _ hfirst (hsame.trans hobs) (by rw [hwoken, hb]; rfl), hb,
        now_deliverAll, hnow]
      rfl
    · rw [get?_deliverAll_of_not env _ _ hfirst (fun _ => by rw [hwoken, hnone]; simp), hnone]
      rfl
  unfold route
  simp only
  split
  · exact hloop _ rfl rfl
  · refine (congrArg (Dict.get? · n) (participants_checkRoundLimit env _)).trans ?_
    exact hloop _ rfl rfl

/-- The routing of a message. -/
theorem plays_route (hn : h.Named) (msg : Msg) (n : Str) :
    ∃ ms, Plays env A C n ms h (h.route env msg).1 := by
  have hk := keeps_route env (E := True) hn msg
  cases hq : h.get? n with
  | none =>
    refine ⟨[], plays_still (seat_congr ?_ hk.dead) (hk.delivered n fun hmem => hmem hq) hk.now⟩
    rw [hk.toRoster.none hq, hq]
  | some q =>
    have hget := get?_route env hn msg hq
    have hdel := (route_spec env hn msg hq).delivered
    have hs := same_routeOne env h.up msg q
    have hseat := seat_routeOne env h.up msg q
    rcases routeOne_cases env h.up msg q with ⟨b, hb, hnone, hobs, hidle⟩ | ⟨hnone, hobs⟩
    · rw [hb] at hget
      rw [hb, hnone] at hdel
      refine ⟨[.handed (sortById b) h.now], plays_one ?_ hdel rfl hk.now⟩
      rw [seat_of_get? hget, seat_of_get? hq, ← hseat]
      exact .handed _ _ rfl (hs.isObserver.trans hobs) ((state_routeOne env h.up msg q).trans hidle)
    · rw [hnone] at hget hdel
      have hsame : (h.route env msg).1.seat n = h.seat n := by
        rw [seat_of_get? hget, seat_of_get? hq, ← hseat]
        rfl
      cases hb : (routeOne env h.up msg q).observed with
      | none =>
        rw [hb] at hdel
        exact ⟨[], plays_still hsame (by simpa using hdel) hk.now⟩
      | some b =>
        have hobs : q.isObserver = true := by
          by_contra hagent
          rw [hobs (by simpa using hagent)] at hb
          cases hb
        rw [hb] at hdel
        refine ⟨[.shown (sortById b)], plays_one ?_ hdel trivial hk.now⟩
        rw [hsame, seat_of_get? hq]
        exact .shown _ rfl hobs

/-- An accepted say. -/
theorem plays_accepted (hn : h.Named) (p : Participant) (f : Say) (n : Str) :
    ∃ ms, Plays env A C n ms h ((h.remember env p f).route env (h.sayMsg p f)).1 := by
  have hrem := roster_remember env h p f
  obtain ⟨ms, hms⟩ := plays_route env (A := A) (C := C) (hrem.named hn) (h.sayMsg p f) n
  refine ⟨ms, Plays.trans (plays_still ?_ (deliveries_remember env h p f n) hrem.now) hms⟩
  have hparticipants : (h.remember env p f).participants =
      (h.modify p.name fun p => { p with lastSay := h.now }).participants := by
    show (h.countSay p f).participants = _
    unfold countSay noteSay
    simp only
    split_ifs <;> rfl
  rw [← seat_modify h p.name (g := fun p => { p with lastSay := h.now }) (n := n) fun _ => rfl]
  exact seat_congr (congrArg (Dict.get? · n) hparticipants) hrem.dead

/-! ## Notes and backlogs -/

/-- A step that updates one participant, and not its seat. -/
theorem plays_modify (h : Hub) (m : Str) {g : Participant → Participant}
    (hg : ∀ q, (g q).seat true = q.seat true) (n : Str) : Plays env A C n [] h (h.modify m g) :=
  plays_still (seat_modify h m hg) rfl rfl

theorem plays_systemNote (hn : h.Named) (text m n : Str) :
    ∃ ms, Plays env A C n ms h (h.systemNote env text m) := by
  cases hp : h.get? m with
  | none => exact ⟨[], by rw [systemNote, hp]; exact .refl h⟩
  | some p =>
    have hcount : Plays env A C n [] h { h with msgCounter := h.msgCounter + 1 } :=
      plays_still rfl rfl rfl
    rw [systemNote, hp]
    simp only
    split
    · exact ⟨[], .refl h⟩
    · split
      · next hidle =>
        have hdrain := plays_modify env (A := A) (C := C) { h with msgCounter := h.msgCounter + 1 } m
          (g := fun q => { q with context := (p.context.drain (some (h.msgCounter + 1))).2 })
          (fun _ => rfl) n
        have hnamed : ({ h with msgCounter := h.msgCounter + 1 }.modify m fun q =>
            { q with context := (p.context.drain (some (h.msgCounter + 1))).2 }).Named := by
          refine (roster_modify { h with msgCounter := h.msgCounter + 1 } m ?_).named hn
          exact fun _ => ⟨rfl, rfl, rfl, rfl, rfl⟩
        obtain ⟨ms, hms⟩ := plays_deliver env (A := A) (C := C) hnamed
          (m := m) (p := { p with context := (p.context.drain (some (h.msgCounter + 1))).2 })
          (by rw [get?_modify_self, show ({ h with msgCounter := h.msgCounter + 1 } : Hub).get? m =
            some p from hp]; rfl) (fun _ => hidle.1) _ n
        exact ⟨_, (hcount.trans hdrain).trans hms⟩
      · exact ⟨_, hcount.trans (plays_modify env _ m (fun q => seat_enqueue env q _) n)⟩

/-- The backlog of a join. -/
theorem plays_giveBacklog (hn : h.Named) {m : Str} {p : Participant} (hp : h.get? m = some p)
    (n : Str) : ∃ ms, Plays env A C n ms h (h.giveBacklog env m) := by
  rw [giveBacklog, hp]
  simp only
  split
  · next hobs =>
    split
    · exact ⟨[], .refl h⟩
    · exact plays_deliver env hn hp (fun hagent => absurd hobs (by simp [hagent])) _ n
  · refine ⟨[], plays_modify env h m ?_ n⟩
    exact fun _ => rfl

/-! ## Coming and going -/

theorem plays_leave (h : Hub) {m : Str} {p : Participant} (hp : h.get? m = some p) (n : Str) :
    ∃ ms, Plays env A C n ms h (h.leave env m p) := by
  have hdel := deliveries_leave env h m p n
  by_cases hm : n = m
  · subst hm
    refine ⟨[.left], plays_one ?_ (by simpa [Move.frame?] using hdel) trivial rfl⟩
    rw [seat_of_get? hp, seat_of_none (get?_leave_self env h n p), leave_dead,
      Dict.get?_insert_self]
    exact .left (s := p.seat true) rfl
  · refine ⟨[], plays_still ?_ hdel rfl⟩
    rw [seat, seat, get?_leave_of_ne env h hm, leave_dead, Dict.get?_insert_of_ne _ hm]

/-- A participant enters the roster. -/
theorem plays_enroll {c : ClientId} {f : Hello} (hfree : h.get? f.name = none)
    (hA : A f.name f.kind (.hello f)) (hC : .enrolled f.name ∈ C) (n : Str) :
    ∃ ms, Plays env A C n ms h (h.enroll c f.name (admitted env h c f)) ∧ ms.length ≤ 1 := by
  by_cases hn : n = f.name
  · subst hn
    have hseat := seat_of_get? (get?_enroll_self h c f.name (admitted env h c f))
    cases hd : h.dead.get? f.name with
    | none =>
      rw [admitted, hd] at hseat
      refine ⟨[.joined (decide (f.kind = observerKind)) (f.caps.contains Moot.idleEvents)],
        plays_one ?_ (by simp [Move.frame?, enroll]) ⟨hC, f, rfl, hA, rfl, rfl⟩ rfl, le_rfl⟩
      rw [seat_of_none hfree, hd, admitted, hd, hseat]
      exact .joined _ _
    | some q =>
      rw [admitted, hd] at hseat
      refine ⟨[.reclaimed (decide (f.kind = observerKind)) (f.caps.contains Moot.idleEvents)],
        plays_one ?_ (by simp [Move.frame?, enroll]) ⟨hC, f, rfl, hA, rfl, rfl⟩ rfl, le_rfl⟩
      rw [seat_of_none hfree, hd, admitted, hd, hseat]
      exact .reclaimed (s := q.seat false) _ _ rfl
  · refine ⟨[], plays_still ?_ rfl rfl, Nat.zero_le _⟩
    rw [seat, seat, get?_enroll_of_ne _ _ hn, enroll_dead, Dict.get?_erase_of_ne _ hn]

/-- A state frame. -/
theorem plays_report {m : Str} {p : Participant} {f : Report} (hp : h.get? m = some p)
    (hA : A m p.kind (.state f)) (hC : .relieved m ∈ C) (n : Str) :
    ∃ ms, Plays env A C n ms h (h.modify m (·.setState h.now f.state)) ∧ ms.length ≤ 1 := by
  by_cases hm : n = m
  · subst hm
    have hget : (h.modify n (·.setState h.now f.state)).get? n =
        some (p.setState h.now f.state) := by
      rw [get?_modify_self, hp]
      rfl
    refine ⟨[.reported f.state h.now], plays_one ?_ (by simp [Move.frame?, modify])
      ⟨rfl, hC, _, f, hA, rfl⟩ rfl, le_rfl⟩
    rw [seat_of_get? hget, seat_of_get? hp]
    exact .reported (s := p.seat true) f.state h.now rfl
  · exact ⟨[], plays_still (seat_congr (get?_modify_of_ne h hm _) rfl) rfl rfl, Nat.zero_le _⟩

/-- An agent is taken to be idle. -/
theorem plays_infer {m : Str} {p : Participant} (hp : h.get? m = some p)
    (hcaps : p.hasIdleEvents = false) (hbusy : p.state ≠ .idle)
    (why : (∃ f, A m p.kind (.say f)) ∧ .relieved m ∈ C ∨
      p.isObserver = false ∧ env.config.assumeIdleAfter < h.now - p.busySince ∧ .overdue m ∈ C)
    (n : Str) : ∃ ms, Plays env A C n ms h (h.modify m (·.setIdle)) ∧ ms.length ≤ 1 := by
  by_cases hm : n = m
  · subst hm
    have hget : (h.modify n (·.setIdle)).get? n = some p.setIdle := by
      rw [get?_modify_self, hp]
      rfl
    rcases why with ⟨⟨f, hA⟩, hC⟩ | ⟨hobs, hlate, hC⟩
    · refine ⟨[.said], plays_one ?_ (by simp [Move.frame?, modify]) ⟨hC, _, f, hA⟩ rfl, le_rfl⟩
      rw [seat_of_get? hget, seat_of_get? hp]
      exact .said (s := p.seat true) rfl hcaps hbusy
    · refine ⟨[.timedOut h.now], plays_one ?_ (by simp [Move.frame?, modify]) ⟨rfl, hC⟩ rfl, le_rfl⟩
      rw [seat_of_get? hget, seat_of_get? hp]
      exact .timedOut (s := p.seat true) h.now rfl hobs hcaps hbusy hlate
  · exact ⟨[], plays_still (seat_congr (get?_modify_of_ne h hm _) rfl) rfl rfl, Nat.zero_le _⟩

/-- **A stroke moves a seat.** -/
theorem Stroke.plays (hw : h.Wf) (hs : Stroke env A C h h') (n : Str) :
    ∃ ms, Plays env A C n ms h h' := by
  have hquiet : ∀ k : Hub, Keeps ∅ ∅ True h k → k.participants = h.participants →
      ∃ ms, Plays env A C n ms h k := fun k hk hp =>
    ⟨[], plays_still (seat_congr (congrArg (Dict.get? · n) hp) hk.dead)
      (hk.delivered n (Set.notMem_empty n)) hk.now⟩
  cases hs with
  | talk ht => exact hquiet _ ht.toQuiet.keeps ht.toQuiet.participants
  | aside ha => exact hquiet _ ha.keeps ha.participants
  | event e skip => exact hquiet _ (keeps_emitEvent env h e skip (Or.inl trivial)) rfl
  | declared room => exact hquiet _ (keeps_append h _ rfl (Or.inl trivial)) rfl
  | touched hg =>
    refine ⟨[], plays_modify env h _ (fun q => ?_) n⟩
    rw [Participant.seat, (hg q).isObserver, (hg q).hasIdleEvents, (hg q).state, (hg q).since]
    rfl
  | reported hp hA hC =>
    obtain ⟨ms, hms, -⟩ := plays_report env hp hA hC n
    exact ⟨ms, hms⟩
  | inferred hp hcaps hbusy why =>
    obtain ⟨ms, hms, -⟩ := plays_infer env hp hcaps hbusy why n
    exact ⟨ms, hms⟩
  | flushed hp hidle => exact plays_flush env hw.named hp hidle n
  | @accepted _ p _ f => exact plays_accepted env hw.named p f n
  | wentOn =>
    refine ⟨[], plays_modify env h _ ?_ n⟩
    exact fun _ => rfl
  | @finished m p hp =>
    have hmark := plays_modify env (A := A) (C := C) h m (g := fun p => { p with finished := true })
      (fun _ => rfl) n
    exact ⟨_, hmark.trans (plays_checkSessionDone env _)⟩
  | @commanded _ _ c =>
    cases c <;> exact ⟨[], plays_still rfl rfl rfl⟩
  | noted m => exact plays_systemNote env hw.named _ m n
  | goalTold =>
    refine ⟨[], plays_still (seat_map (get?_mapParticipants h _ n) rfl fun q => ?_) rfl rfl⟩
    split <;> rfl
  | left hp =>
    obtain ⟨ms, hms⟩ := plays_leave env (A := A) (C := C) h hp n
    exact ⟨_, hms.trans (plays_checkSessionDone env _)⟩
  | enrolled _ hfree hA hC =>
    obtain ⟨ms, hms, -⟩ := plays_enroll env hfree hA hC n
    exact ⟨ms, hms⟩
  | caughtUp hp => exact plays_giveBacklog env hw.named hp n

/-! ## Reliefs -/

/-- The changes in `C` that do not bear on the turn of `n`. -/
def sparing (C : Set Change) (n : Str) : Set Change :=
  {c | c ∈ C ∧ c ≠ .relieved n ∧ c ≠ .overdue n ∧ c ≠ .enrolled n}

/-- The moves of the seat of `n` relieve it `k` times at most. -/
def Relieved (A : Filter) (C : Set Change) (n : Str) (k : Nat) (h h' : Hub) : Prop :=
  ∃ ms, Plays env A C n ms h h' ∧ ms.countP Move.relieves ≤ k

variable {env}

theorem Warrant.mono {C' : Set Change} (hsub : C ⊆ C') {now : Rat} {m : Move}
    (hm : Warrant A C n now m) : Warrant A C' n now m := by
  cases m with
  | timedOut t => exact ⟨hm.1, hsub hm.2⟩
  | expired => exact hsub hm
  | reported s t => exact ⟨hm.1, hsub hm.2.1, hm.2.2⟩
  | said => exact ⟨hsub hm.1, hm.2⟩
  | reclaimed obs idle => exact ⟨hsub hm.1, hm.2⟩
  | joined obs idle => exact ⟨hsub hm.1, hm.2⟩
  | _ => exact hm

/-- Changes that spare `n` do not relieve it. -/
theorem Warrant.spared {now : Rat} {m : Move} (hm : Warrant A (sparing C n) n now m) :
    m.relieves = false := by
  cases m with
  | timedOut t => exact absurd rfl hm.2.2.2.1
  | expired => exact absurd rfl hm.2.2.1
  | reported s t => exact absurd rfl hm.2.1.2.1
  | said => exact absurd rfl hm.1.2.1
  | reclaimed obs idle => exact absurd rfl hm.1.2.2.2
  | _ => rfl

theorem Relieved.refl (h : Hub) : Relieved env A C n 0 h h := ⟨[], .refl h, le_rfl⟩

theorem Relieved.trans {j k : Nat} (hab : Relieved env A C n j h h')
    (hbc : Relieved env A C n k h' h'') : Relieved env A C n (j + k) h h'' := by
  obtain ⟨ms, hms, hj⟩ := hab
  obtain ⟨ms', hms', hk⟩ := hbc
  exact ⟨_, hms.trans hms', by rw [List.countP_append]; omega⟩

theorem Relieved.le {j k : Nat} (hr : Relieved env A C n j h h') (hjk : j ≤ k) :
    Relieved env A C n k h h' := by
  obtain ⟨ms, hms, hj⟩ := hr
  exact ⟨ms, hms, hj.trans hjk⟩

/-- One move relieves once at most. -/
theorem Relieved.one (hr : ∃ ms, Plays env A C n ms h h' ∧ ms.length ≤ 1) :
    Relieved env A C n 1 h h' := by
  obtain ⟨ms, hms, hone⟩ := hr
  exact ⟨ms, hms, List.countP_le_length.trans hone⟩

theorem Stroke.spared (hw : h.Wf) (hs : Stroke env A (sparing C n) h h') :
    Relieved env A C n 0 h h' := by
  obtain ⟨ms, hms⟩ := hs.plays env hw n
  refine ⟨ms, ⟨hms.walk, hms.frames, fun m hm => (hms.warrant m hm).mono fun c hc => hc.1,
    hms.now⟩, ?_⟩
  rw [Nat.le_zero, List.countP_eq_zero]
  intro m hm
  rw [(hms.warrant m hm).spared]
  exact Bool.false_ne_true

theorem Strokes.spared (hw : h.Wf) (hs : Strokes env A (sparing C n) h h') :
    Relieved env A C n 0 h h' := by
  induction hs with
  | refl => exact .refl h
  | tail hpath hstroke ih => exact ih.trans (hstroke.spared (Strokes.wf hw hpath))

variable (env)

variable {F : Type} [PyJson.PyFloat F]

/-- The frame an operation handles, and whose it is. -/
def origin (h : Hub) (op : Op F) : Filter := fun n _ f =>
  ∃ c frame, op = .handle c frame ∧ validate env.isPrintable frame = .ok f ∧
    match f with
    | .hello g => g.name = n
    | _ => (h.wire.clients c).name = n

/-- Time is up in a tick of the watchdog only. -/
def changes (op : Op F) : Set Change := {c | op = .watchdogTick ∨ ∀ m, c ≠ .overdue m}

/-- The moves of the seat of `n` in an operation that leads from `h` to `h'`. -/
structure Moved (n : Str) (h : Hub) (op : Op F) (h' : Hub) (ms : List Move) : Prop where
  walk : Walk (Seat.Moves env.config.assumeIdleAfter) (h.seat n) ms (h'.seat n)
  frames : deliveries n h'.wire.log = deliveries n h.wire.log ++ ms.filterMap Move.frame?
  warrant : ∀ m ∈ ms, Warrant (origin env h op) (changes op) n h.now m
  once : ms.countP Move.relieves ≤ 1

/-- The moves of the seat of `n` in a run. -/
inductive Trace (step : Hub → Op F → Hub) (n : Str) : Hub → List (Op F) → List Move → Prop
  | nil (h : Hub) : Trace step n h [] []
  | cons {h : Hub} {op : Op F} {ops : List (Op F)} {ms ms' : List Move}
      (head : Moved env n h op (step h op) ms) (tail : Trace step n (step h op) ops ms') :
      Trace step n h (op :: ops) (ms ++ ms')

variable {env}

section
variable {step : Hub → Op F → Hub} {ops : List (Op F)}

theorem Trace.walk (ht : Trace env step n h ops ms) :
    Walk (Seat.Moves env.config.assumeIdleAfter) (h.seat n) ms ((Run.after step h ops).seat n) := by
  induction ht with
  | nil => exact .nil _
  | cons head _ ih => exact head.walk.append ih

theorem Trace.frames (ht : Trace env step n h ops ms) :
    deliveries n (Run.after step h ops).wire.log =
      deliveries n h.wire.log ++ ms.filterMap Move.frame? := by
  induction ht with
  | nil => exact (List.append_nil _).symm
  | @cons h op ops ms ms' head _ ih =>
    rw [List.filterMap_append, ← List.append_assoc, ← head.frames]
    exact ih

end

theorem tidy_step (hw : h.Wf) (ht : ∀ q, h.box? n = some q → q.mail.Tidy) (op : Op F) :
    ∀ q, (h.step env op).box? n = some q → q.mail.Tidy := by
  intro q' hq'
  cases fate_step env hw op n with
  | kept hp =>
    cases hq : h.box? n with
    | none =>
      rw [(hp.absent hq).1] at hq'
      cases hq'
    | some q =>
      obtain ⟨as, r, hr, -, -, -, hmail, -⟩ := hp.acts q hq
      rw [hr, Option.some.injEq] at hq'
      rw [← hq', hmail]
      exact (ht q hq).play _ as
  | expired _ he =>
    rw [he.gone] at hq'
    cases hq'
  | reclaimed f q name _ found hrec =>
    subst name
    obtain ⟨as, r, hr, -, -, -, hmail, -⟩ := hrec.acts
    rw [box?_of_get? hr, Option.some.injEq] at hq'
    rw [← hq', hmail]
    exact (ht q found).play _ as
  | joined f name _ _ hj =>
    subst name
    obtain ⟨r, hr, -, -, hmail, -⟩ := hj.acts
    rw [box?_of_get? hr, Option.some.injEq] at hq'
    rw [← hq', hmail]
    exact Mail.Tidy.play (fun _ => rfl) _ _

/-- A registration whose turn is in order. -/
structure Orderly (n : Str) (h : Hub) : Prop where
  wf : h.Wf
  rested : h.Rested n
  tidy : ∀ q, h.box? n = some q → q.mail.Tidy

theorem Orderly.step (ho : Orderly n h) (op : Op F) : Orderly n (h.step env op) :=
  ⟨ho.wf.step env op, rested_step ho.wf ho.rested op, tidy_step ho.wf ho.tidy op⟩

variable (env)

end

end Hub

end Moot
