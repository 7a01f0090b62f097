import Moot.Hub.Raise
import Moot.Hub.Ownership
import Moot.Lib.Ghost

/-!
# Clean strings

A hub whose strings hold no lone surrogate (`Hub.Clean`), and a frame or an operation that
gives none.

Proved here, for each handler: on clean strings it returns, it does what the handler that runs
to its end does, and the hub stays clean; so do operations (`attempt_eq`) and runs
(`CleanRun.after_eq`).
-/

namespace Moot
open Py Proto Raise

/-! ## Clean states -/

/-- No string of the message holds a lone surrogate. -/
def Msg.Clean (m : Msg) : Prop := AllClean m.strings

structure Participant.Clean (p : Participant) : Prop where
  name : Py.Clean p.name
  kind : Py.Clean p.kind
  role : Py.Clean p.role
  detail : ∀ d ∈ p.blockedDetail, Py.Clean d
  queue : ∀ m ∈ p.queue, m.Clean
  context : ∀ m ∈ p.context.items, m.Clean

structure Hub.Clean (h : Hub) : Prop where
  roster : ∀ n p, h.get? n = some p → Py.Clean n ∧ p.Clean
  dead : ∀ n p, h.dead.get? n = some p → Py.Clean n ∧ p.Clean
  recent : ∀ r ∈ h.recent, AllClean r.strings
  goal : Py.Clean h.goal

/-! ## Messages -/

theorem Msg.Clean.tag {m : Msg} (hm : m.Clean) (a : Addressing) : (m.tag a).Clean := hm

theorem clean_systemSender : Py.Clean systemSender := clean_str _

theorem clean_omittedNote (n : Nat) : (omittedNote n).Clean := by
  simp [Msg.Clean, Msg.strings, omittedNote, clean_systemSender]

theorem clean_droppedNote {owner : Str} (ho : Py.Clean owner) (n : Nat) :
    (droppedNote owner n).Clean := by
  simp [Msg.Clean, Msg.strings, droppedNote, clean_systemSender, ho]

theorem clean_sortById {ms : List Msg} (hms : ∀ m ∈ ms, m.Clean) : ∀ m ∈ sortById ms, m.Clean :=
  fun m hm => hms m (mem_sortById.mp hm)

/-! ## Mail -/

section
variable {b : ContextBuffer} {p : Participant}

theorem clean_appended (hb : ∀ m ∈ b.items, m.Clean) {m : Msg} (hm : m.Clean) :
    ∀ k ∈ (b.append m).items, k.Clean := by
  intro k hk
  have hall : k ∈ b.items ++ [m] := by
    rw [← b.append_items m]
    exact List.mem_append_right _ hk
  rcases List.mem_append.mp hall with hk | hk
  · exact hb k hk
  · rw [List.mem_singleton.mp hk]
    exact hm

theorem clean_appends {ms : List Msg} (hb : ∀ m ∈ b.items, m.Clean) (hms : ∀ m ∈ ms, m.Clean) :
    ∀ k ∈ (ms.foldl (fun b m => b.append (m.tag .overheard)) b).items, k.Clean := by
  induction ms generalizing b with
  | nil => exact hb
  | cons m ms ih =>
    exact ih (clean_appended hb ((hms m (List.mem_cons_self ..)).tag _))
      fun k hk => hms k (List.mem_cons_of_mem _ hk)

theorem clean_drain (hb : ∀ m ∈ b.items, m.Clean) (upto : Option Nat) :
    (∀ m ∈ (b.drain upto).1, m.Clean) ∧ ∀ m ∈ (b.drain upto).2.items, m.Clean := by
  refine ⟨fun m hm => ?_, fun m hm => hb m ((List.dropWhile_suffix _).subset hm)⟩
  rcases List.mem_append.mp hm with hm | hm
  · split at hm
    · cases hm
    · rw [List.mem_singleton.mp hm]
      exact clean_omittedNote _
  · exact hb m ((List.takeWhile_prefix _).subset hm)

theorem Participant.Clean.notedQueue (hp : p.Clean) : ∀ m ∈ p.notedQueue, m.Clean := by
  unfold Participant.notedQueue
  split
  · exact hp.queue
  · intro m hm
    rcases List.mem_cons.mp hm with rfl | hm
    · exact clean_droppedNote hp.name _
    · exact hp.queue m hm

theorem Participant.Clean.flushed (hp : p.Clean) (cfg : Config) : (p.flushed cfg).Clean :=
  { hp with
    queue := fun m hm => hp.notedQueue m (List.mem_of_mem_drop hm)
    context := (clean_drain hp.context _).2 }

theorem Participant.Clean.flushBatch (hp : p.Clean) (cfg : Config) :
    ∀ m ∈ p.flushBatch cfg, m.Clean := by
  intro m hm
  rcases List.mem_append.mp hm with hm | hm
  · exact (clean_drain hp.context _).1 m hm
  · exact hp.notedQueue m (List.mem_of_mem_take hm)

theorem Participant.Clean.enqueue (hp : p.Clean) (cfg : Config) {m : Msg} (hm : m.Clean) :
    (p.enqueue cfg m).Clean := by
  have hqueue : ∀ q : List Msg, (∀ k ∈ q, k ∈ p.queue) → ∀ k ∈ q ++ [m], k.Clean := by
    intro q hq k hk
    rcases List.mem_append.mp hk with hk | hk
    · exact hp.queue k (hq k hk)
    · rw [List.mem_singleton.mp hk]
      exact hm
  unfold Participant.enqueue
  split
  · exact { hp with queue := hqueue _ fun k hk => List.mem_of_mem_tail hk }
  · exact { hp with queue := hqueue _ fun k hk => hk }

theorem Participant.Clean.drained (hp : p.Clean) (upto : Option Nat) :
    ({ p with context := (p.context.drain upto).2 } : Participant).Clean :=
  { hp with context := (clean_drain hp.context upto).2 }

end

/-! ## Hubs -/

namespace Hub

section
variable {h k : Hub} {n : Str} {p : Participant}

/-- What is not kept as text may change. -/
theorem Clean.same (hh : h.Clean) (hp : k.participants = h.participants) (hd : k.dead = h.dead)
    (hr : k.recent = h.recent) (hg : k.goal = h.goal) : k.Clean :=
  ⟨fun n p hn => hh.roster n p (by rw [get?, ← hp]; exact hn), by rw [hd]; exact hh.dead,
    by rw [hr]; exact hh.recent, by rw [hg]; exact hh.goal⟩

theorem Clean.modify (hh : h.Clean) {g : Participant → Participant}
    (hg : ∀ p, h.get? n = some p → p.Clean → (g p).Clean) : (h.modify n g).Clean := by
  refine { hh with roster := fun m q hq => ?_ }
  by_cases hm : m = n
  · subst hm
    rw [get?_modify_self, Option.map_eq_some_iff] at hq
    obtain ⟨p, hp, rfl⟩ := hq
    exact ⟨(hh.roster m p hp).1, hg p hp (hh.roster m p hp).2⟩
  · rw [get?_modify_of_ne h hm] at hq
    exact hh.roster m q hq

theorem Clean.mapParticipants (hh : h.Clean) {g : Participant → Participant}
    (hg : ∀ n p, h.get? n = some p → p.Clean → (g p).Clean) : (h.mapParticipants g).Clean := by
  refine { hh with roster := fun m q hq => ?_ }
  rw [get?_mapParticipants, Option.map_eq_some_iff] at hq
  obtain ⟨p, hp, rfl⟩ := hq
  exact ⟨(hh.roster m p hp).1, hg m p hp (hh.roster m p hp).2⟩

theorem Clean.values (hh : h.Clean) : ∀ p ∈ h.participants.values, p.Clean := by
  intro p hp
  obtain ⟨n, hn⟩ := Dict.mem_values_iff.mp hp
  exact (hh.roster n p hn).2

theorem Clean.agents (hh : h.Clean) : ∀ p ∈ h.agents, p.Clean :=
  fun p hp => hh.values p (List.mem_filter.mp hp).1

theorem Clean.keys (hh : h.Clean) : ∀ n ∈ h.participants.keys, Py.Clean n := by
  intro n hn
  obtain ⟨p, hp⟩ := Dict.mem_keys_iff.mp hn
  exact (hh.roster n p hp).1

theorem Clean.setWire (hh : h.Clean) (w : Wire) : (h.setWire w).Clean := hh.same rfl rfl rfl rfl

theorem Clean.notify (hh : h.Clean) (env : Env) (title message : Str) :
    (h.notify env title message).Clean := by
  unfold Hub.notify
  split
  · exact hh.setWire _
  · exact hh

theorem Clean.touchActivity (hh : h.Clean) : h.touchActivity.Clean := hh.same rfl rfl rfl rfl

theorem Clean.rosterDetail (hh : h.Clean) : Py.Clean h.rosterDetail := by
  unfold Hub.rosterDetail
  simp only
  split
  · exact clean_str _
  · exact clean_join (clean_str _) fun s hs => hh.keys s ((mem_sortedStrs _ _).mp hs)

end

end Hub

/-! ## Handlers that return -/

/-- The method returns and leaves the hub at `h'`, which is clean. -/
abbrev Settles {α : Type} (m : HubM α) (h : Hub) (a : α) (h' : Hub) : Prop :=
  Returns Hub.Clean m h a h'

namespace HubM

section
variable {env : Env} {h : Hub} {n : Str} {c : ClientId} {p : Participant}

theorem settles_post (hh : h.Clean) {frame : Frame} (hf : AllClean frame.strings) :
    Settles (post env n c frame) h () (h.setWire (h.wire.send env n c frame)) := by
  refine .get ?_
  rw [if_neg fun hc => hc.2 hf]
  exact ⟨rfl, hh.setWire _⟩

theorem settles_send (hh : h.Clean) (p : Participant) {frame : Frame} (hf : AllClean frame.strings) :
    Settles (send env p frame) h () (h.send env p frame) := settles_post hh hf

theorem settles_errRaw (hh : h.Clean) {code detail : Str} (hcode : Clean code)
    (hdetail : Clean detail) (seq : Option Int) :
    Settles (errRaw env c code detail seq) h () (h.errRaw env c code detail seq) :=
  .get (settles_post hh (by simp [Frame.strings, hcode, hdetail]))

theorem settles_append (hh : h.Clean) {r : Record} (hr : AllClean r.strings) :
    Settles (append r) h () (h.append r) := by
  unfold append
  rw [if_pos hr]
  exact .modify (hh.setWire _)

/-- The loop of an event writes to the wire alone. -/
theorem foldl_tellEvent (e : HubEvent) (skip : Option Str) (ps : List Participant) (h : Hub) :
    ps.foldl (fun h p => h.setWire (Hub.tellEvent env e skip h.wire p)) h =
      h.setWire (ps.foldl (Hub.tellEvent env e skip) h.wire) := by
  induction ps generalizing h with
  | nil => rfl
  | cons p ps ih => exact ih _

theorem settles_tellEvent (hh : h.Clean) {e : HubEvent} (he : AllClean e.strings)
    (skip : Option Str) (p : Participant) :
    Settles (tellEvent env e skip p) h () (h.setWire (Hub.tellEvent env e skip h.wire p)) := by
  unfold tellEvent Hub.tellEvent
  refine .get ?_
  rw [apply_ite h.setWire]
  exact .doIf hh fun _ => settles_send hh p he

theorem settles_emitEvent (hh : h.Clean) {e : HubEvent} (he : AllClean e.strings)
    (skip : Option Str) : Settles (emitEvent env e skip) h () (h.emitEvent env e skip) := by
  have hloop : Settles (h.participants.values.forM (tellEvent env e skip)) h () _ :=
    .forM hh fun p _ k hk => settles_tellEvent hk he skip p
  rw [foldl_tellEvent] at hloop
  exact .get (hloop.bind fun hk => settles_append hk he)

theorem settles_encodeText (hh : h.Clean) {s : Str} (hs : Clean s) :
    Settles (encodeText s) h () (h.encodeText s) := by
  unfold encodeText
  rw [if_pos hs]
  exact .modify (hh.setWire _)

theorem settles_emitRejected (hh : h.Clean) (hp : p.Clean) {code addressee kind text : Str}
    (hcode : Clean code) (haddr : Clean addressee) (hkind : Clean kind) (htext : Clean text)
    (retryAfter : Option Rat) (priv : Bool) :
    Settles (emitRejected env p code addressee kind text retryAfter priv) h ()
      (h.emitRejected env p code addressee kind text retryAfter priv) := by
  refine .unless hh fun _ => (settles_encodeText hh htext).bind fun hk => settles_emitEvent hk ?_ none
  simp [HubEvent.strings, hp.name, hcode, haddr, hkind]

theorem settles_notify (hh : h.Clean) (title message : Str) :
    Settles (notify env title message) h () (h.notify env title message) :=
  .modify (hh.notify env title message)

/-! ### Delivery -/

theorem settles_handOut (hh : h.Clean) (hp : p.Clean) {msgs : List Msg} (hms : ∀ m ∈ msgs, m.Clean) :
    Settles (handOut env p msgs) h () (h.handOut env p msgs) := by
  have hsend : Settles (send env p (.deliver h.round msgs)) h ()
      (h.send env p (.deliver h.round msgs)) :=
    settles_send hh p ((allClean_flatMap msgs Msg.strings).mpr hms)
  exact .get (hsend.bind fun hk => settles_append hk (by simp [Record.strings, hp.name]))

theorem settles_deliver (hh : h.Clean) (n : Str) {msgs : List Msg} (hms : ∀ m ∈ msgs, m.Clean) :
    Settles (deliver env n msgs) h () (h.deliver env n msgs) := by
  unfold deliver Hub.deliver
  refine .get ?_
  cases hp : h.get? n with
  | none => exact .pure hh ()
  | some p =>
    refine (settles_handOut hh (hh.roster n p hp).2 (clean_sortById hms)).bind fun hk => ?_
    exact .unless hk fun _ => .modify (Hub.Clean.touchActivity (hk.modify fun q _ hq => { hq with }))

theorem settles_announceDone (hh : h.Clean) : Settles (announceDone env) h () (h.announceDone env) := by
  refine .get ((settles_emitEvent hh (e := .sessionDone h.round) allClean_nil none).bind fun hk => ?_)
  exact .write (hk.same rfl rfl rfl rfl) fun hk => settles_notify hk _ _

theorem settles_checkSessionDone (hh : h.Clean) :
    Settles (checkSessionDone env) h () (h.checkSessionDone env) := by
  refine .get (.doIf hh fun _ => (settles_announceDone hh).bind fun hk => .modify ?_)
  have hround : ({ h.announceDone env with round := 0 } : Hub).Clean := hk.same rfl rfl rfl rfl
  refine hround.mapParticipants fun m q _ hq => ?_
  split
  · exact hq
  · exact { hq with }

theorem settles_announceLimit (hh : h.Clean) :
    Settles (announceLimit env) h () (h.announceLimit env) := by
  refine .get (.write (hh.same rfl rfl rfl rfl) fun hk => ?_)
  exact (settles_emitEvent hk (e := .roundLimit h.round h.maxRounds) allClean_nil none).bind
    fun hk => settles_notify hk _ _

theorem settles_checkRoundLimit (hh : h.Clean) :
    Settles (checkRoundLimit env) h () (h.checkRoundLimit env) :=
  .get (.doIf hh fun _ => (settles_announceLimit hh).bind fun hk =>
    .unless hk fun _ => settles_append hk allClean_nil)

theorem settles_wake (hh : h.Clean) (hp : p.Clean) (n : Str) :
    Settles (wake env n p) h ()
      (if (p.wakeSlice env.config).any (·.sender ≠ systemSender) then
        ({ h with round := h.round + 1 }.deliver env n (p.flushBatch env.config)).checkRoundLimit env
      else h.deliver env n (p.flushBatch env.config)) := by
  have hbatch := hp.flushBatch env.config
  refine .ite (fun _ => ?_) fun _ => settles_deliver hh n hbatch
  refine .write (hh.same rfl rfl rfl rfl) fun hk => ?_
  exact (settles_deliver hk n hbatch).bind fun hk => settles_checkRoundLimit hk

theorem settles_flushQueue (hh : h.Clean) (n : Str) :
    Settles (flushQueue env n) h () (h.flushQueue env n) := by
  unfold flushQueue Hub.flushQueue
  refine .get ?_
  cases hp : h.get? n with
  | none => exact .pure hh ()
  | some p =>
    refine .unless hh fun _ => .write (hh.modify fun q _ hq => hq.flushed env.config) fun hk => ?_
    exact (settles_wake hk (hh.roster n p hp).2 n).bind fun hk => settles_checkSessionDone hk

theorem settles_systemNote (hh : h.Clean) {text : Str} (htext : Clean text) (n : Str) :
    Settles (systemNote env text n) h () (h.systemNote env text n) := by
  unfold systemNote Hub.systemNote
  refine .get ?_
  cases hp : h.get? n with
  | none => exact .pure hh ()
  | some p =>
    have hpc := (hh.roster n p hp).2
    refine .unless hh fun _ => .write (hh.same rfl rfl rfl rfl) fun hk => .ite (fun _ => ?_) fun _ => ?_
    · refine .write (hk.modify fun q _ hq => ?_) fun hk => settles_deliver hk n fun m hm => ?_
      · exact { hq with context := (clean_drain hpc.context _).2 }
      · rcases List.mem_append.mp hm with hm | hm
        · exact (clean_drain hpc.context _).1 m hm
        · rw [List.mem_singleton.mp hm]
          simp [Msg.Clean, Msg.strings, clean_systemSender, hpc.name, htext]
    · refine .modify (hk.modify fun q _ hq => hq.enqueue env.config ?_)
      simp [Msg.Clean, Msg.strings, clean_systemSender, hpc.name, htext]

theorem settles_systemMessage (hh : h.Clean) {text : Str} (htext : Clean text) :
    Settles (systemMessage env text) h () (h.systemMessage env text) :=
  .get (.forM hh fun n _ _ hk => settles_systemNote hk htext n)

/-! ### Lifecycle -/

theorem settles_leave (hh : h.Clean) (hp : h.get? n = some p) :
    Settles (leave env n p) h () (h.leave env n p) := by
  have hleft : (Hub.touchActivity { h with
      dead := h.dead.insert n p
      participants := h.participants.erase n
      blockedNotified := h.blockedNotified.filter (· ≠ n) }).Clean := by
    refine ⟨fun m q hq => ?_, fun m q hq => ?_, hh.recent, hh.goal⟩
    · have hq : (h.participants.erase n).get? m = some q := hq
      rw [Dict.get?_erase] at hq
      split at hq
      · cases hq
      · exact hh.roster m q hq
    · have hq : (h.dead.insert n p).get? m = some q := hq
      rw [Dict.get?_insert] at hq
      split at hq
      · next hm =>
        rw [Option.some.injEq] at hq
        rw [← hq, hm]
        exact hh.roster n p hp
      · exact hh.dead m q hq
  refine .write hleft fun hk => settles_emitEvent hk ?_ none
  simp [HubEvent.strings, (hh.roster n p hp).1]

theorem settles_close (hh : h.Clean) (c : ClientId) : Settles (close c) h () (h.close c) :=
  .modify (hh.setWire _)

theorem settles_disconnect (hh : h.Clean) (c : ClientId) :
    Settles (disconnect env c) h () (h.disconnect env c) := by
  unfold disconnect Hub.disconnect
  refine .get ?_
  simp only
  cases hp : h.get? (h.wire.clients c).name with
  | none => exact settles_close hh c
  | some p =>
    refine .ite (fun _ => ?_) fun _ => settles_close hh c
    exact (settles_leave hh hp).bind fun hk => (settles_checkSessionDone hk).bind fun hk =>
      settles_close hk c

/-! ### Hello -/

theorem clean_backlog (hh : h.Clean) (n : Str) (isObserver : Bool) :
    ∀ m ∈ Hub.backlog env n isObserver h.recent, m.Clean := by
  intro m hm
  obtain ⟨r, hr, rfl⟩ := List.mem_map.mp hm
  have hvisible := (lastN_suffix _ _).subset (List.mem_filter.mp hr).1
  exact hh.recent r (List.mem_filter.mp hvisible).1

theorem settles_giveBacklog (hh : h.Clean) (n : Str) :
    Settles (giveBacklog env n) h () (h.giveBacklog env n) := by
  unfold giveBacklog Hub.giveBacklog
  refine .get ?_
  cases hp : h.get? n with
  | none => exact .pure hh ()
  | some p =>
    have hlines : ∀ m ∈ Hub.backlog env n p.isObserver h.recent, m.Clean :=
      clean_backlog hh n p.isObserver
    refine .ite (fun _ => .unless hh fun _ => settles_deliver hh n fun m hm => ?_) fun _ =>
      .modify (hh.modify fun q _ hq => { hq with context := clean_appends hq.context hlines })
    obtain ⟨k, hk, rfl⟩ := List.mem_map.mp hm
    exact hlines k hk

theorem clean_admitted (hh : h.Clean) {f : Hello} (hf : AllClean (Inbound.hello f).strings)
    (c : ClientId) : (Hub.admitted env h c f).Clean := by
  have hrole : Clean (f.role.getD []) := by
    have := (allClean_toList f.role).mp hf
    cases hr : f.role with
    | none => exact clean_nil
    | some r => exact this r hr
  unfold Hub.admitted
  split
  · next p hp =>
    exact { (hh.dead _ _ hp).2 with
      kind := clean_of_nameRe f.kind_ok
      role := hrole
      detail := fun _ hd => by cases hd }
  · exact
      { name := clean_of_nameRe f.name_ok.2
        kind := clean_of_nameRe f.kind_ok
        role := hrole
        detail := fun _ hd => by cases hd
        queue := fun _ hm => by cases hm
        context := fun _ hm => by cases hm }

theorem clean_enroll (hh : h.Clean) {f : Hello} (hp : p.Clean) (c : ClientId) :
    (h.enroll c f.name p).Clean := by
  refine ⟨fun m q hq => ?_, fun m q hq => ?_, hh.recent, hh.goal⟩
  · have hq : (h.participants.insert f.name p).get? m = some q := hq
    rw [Dict.get?_insert] at hq
    split at hq
    · next hm =>
      rw [Option.some.injEq] at hq
      rw [← hq, hm]
      exact ⟨clean_of_nameRe f.name_ok.2, hp⟩
    · exact hh.roster m q hq
  · have hq : (h.dead.erase f.name).get? m = some q := hq
    rw [Dict.get?_erase] at hq
    split at hq
    · cases hq
    · exact hh.dead m q hq

theorem clean_welcome (hh : h.Clean) (hp : p.Clean) : AllClean (Hub.welcome env h p).strings := by
  have hpeers : ∀ q ∈ h.participants.values.filter (·.name ≠ p.name),
      Clean q.name ∧ Clean q.kind ∧ Clean q.role := fun q hq => by
    have hq := hh.values q (List.mem_filter.mp hq).1
    exact ⟨hq.name, hq.kind, hq.role⟩
  simp only [Hub.welcome, Frame.strings, allClean_cons, allClean_flatMap, List.forall_mem_map,
    Peer.strings, allClean_nil, and_true]
  exact ⟨hp.name, by simp, hh.goal, hpeers⟩

theorem settles_greet (hh : h.Clean) (hp : p.Clean) {n : Str} (hn : Clean n) (rejoined : Bool) :
    Settles (greet env n p rejoined) h () (h.greet env n p rejoined) := by
  refine .get ((settles_send hh p (clean_welcome hh hp)).bind fun hk => ?_)
  refine (Returns.doIf hk fun _ => settles_giveBacklog hk n).bind fun hk => ?_
  refine .write hk.touchActivity fun hk => settles_emitEvent hk ?_ _
  simp [HubEvent.strings, hn, hp.kind, hp.role]

theorem settles_register (hh : h.Clean) {f : Hello} (hf : AllClean (Inbound.hello f).strings)
    (c : ClientId) : Settles (register env c f) h () (h.register env c f) := by
  have hp : (Hub.admitted env h c f).Clean := clean_admitted hh hf c
  refine .get (.write (clean_enroll hh hp c) fun hk => ?_)
  refine (settles_greet hk hp (clean_of_nameRe f.name_ok.2) _).bind fun hk => ?_
  exact .doIf hk fun _ => settles_flushQueue hk f.name

theorem settles_reap (hh : h.Clean) (n : Str) : Settles (reap env n) h () (h.reap env n) := by
  unfold reap Hub.reap
  refine .get ?_
  cases h.get? n with
  | none => exact .pure hh ()
  | some old => exact .unless hh fun _ => settles_disconnect hh old.client

theorem settles_declareRoom (hh : h.Clean) (f : Hello) :
    Settles (declareRoom f) h () (h.declareRoom f) := by
  unfold declareRoom Hub.declareRoom
  refine .get ?_
  cases hroom : f.room with
  | none => exact .pure hh ()
  | some room =>
    refine settles_append hh ?_
    simp [Record.strings, clean_of_nameRe (f.room_ok room hroom), clean_of_nameRe f.name_ok.2]

theorem settles_turnAway (hh : h.Clean) {n : Str} (hn : Clean n) (c : ClientId) :
    Settles (turnAway env c n) h () (h.turnAway env c n) := by
  refine .get ((settles_errRaw hh (clean_str _) ?_ none).bind fun hk => settles_close hk c)
  exact clean_suggestName hn _ _

theorem settles_handleHello (hh : h.Clean) {f : Hello} (hf : AllClean (Inbound.hello f).strings)
    (c : ClientId) : Settles (handleHello env c f) h () (h.handleHello env c f) := by
  refine .get (.ite (fun _ => settles_errRaw hh (clean_str _) (by simp) none) fun _ => ?_)
  refine (settles_reap hh f.name).bind fun hk => (settles_declareRoom hk f).bind fun hk => .get ?_
  exact .ite (fun _ => settles_turnAway hk (clean_of_nameRe f.name_ok.2) c) fun _ =>
    settles_register hk hf c

/-! ### Say -/

theorem settles_deliverAll {bs : List (Str × List Msg)} (hh : h.Clean)
    (hbs : ∀ b ∈ bs, ∀ m ∈ b.2, m.Clean) :
    Settles (deliverAll env bs) h () (h.deliverAll env bs) :=
  .forM hh fun b hb _ hk => settles_deliver hk b.1 (hbs b hb)

variable (env) in
/-- What routing makes of a clean participant. -/
theorem clean_routeOne (up : ClientId → Bool) {msg : Msg} (hmsg : msg.Clean) (hp : p.Clean) :
    (Hub.routeOne env up msg p).participant.Clean ∧
      (∀ ms ∈ (Hub.routeOne env up msg p).observed, ∀ m ∈ ms, m.Clean) ∧
      ∀ ms ∈ (Hub.routeOne env up msg p).woken, ∀ m ∈ ms, m.Clean := by
  have htag := hmsg.tag (p.addressing msg.addressee)
  unfold Hub.routeOne
  simp only
  split
  · simp [hp]
  split
  · refine ⟨hp, ?_, by simp⟩
    split
    · simp [htag]
    · simp
  split
  · refine ⟨?_, by simp, by simp⟩
    split
    · exact hp
    · exact { hp with context := clean_appended hp.context htag }
  split
  · refine ⟨hp.drained _, by simp, ?_⟩
    intro ms hms m hm
    rw [Option.mem_some_iff] at hms
    subst hms
    rcases List.mem_append.mp hm with hm | hm
    · exact (clean_drain hp.context _).1 m hm
    · rw [List.mem_singleton.mp hm]
      exact htag
  · exact ⟨hp.enqueue env.config htag, by simp, by simp⟩

theorem clean_batches (hh : h.Clean) {f : Participant → Option (List Msg)}
    (hf : ∀ p, p.Clean → ∀ ms ∈ f p, ∀ m ∈ ms, m.Clean) :
    ∀ b ∈ Hub.batches f h, ∀ m ∈ b.2, m.Clean := by
  intro b hb
  obtain ⟨q, hq, hb⟩ := List.mem_filterMap.mp hb
  obtain ⟨ms, hms, rfl⟩ := Option.map_eq_some_iff.mp hb
  exact hf q (hh.values q hq) ms hms

theorem settles_route (hh : h.Clean) {msg : Msg} (hmsg : msg.Clean) :
    Settles (route env msg) h (h.route env msg).2 (h.route env msg).1 := by
  have hone := fun (q : Participant) (hq : q.Clean) => clean_routeOne env h.up hmsg hq
  have hobserved := clean_batches hh fun q hq => (hone q hq).2.1
  have hwoken := clean_batches hh fun q hq => (hone q hq).2.2
  refine .get (.write (hh.mapParticipants fun n q _ hq => (hone q hq).1) fun hk => ?_)
  refine (Returns.unless hk fun _ => .modify (hk.same rfl rfl rfl rfl)).bind fun hk => ?_
  refine (settles_deliverAll hk hobserved).bind fun hk => ?_
  refine (settles_deliverAll hk hwoken).bind fun hk => ?_
  exact (Returns.unless hk fun _ => settles_checkRoundLimit hk).bind fun hk => .pure hk _

theorem clean_sayMsg (hp : p.Clean) {f : Say} (hf : AllClean (Inbound.say f).strings) :
    (h.sayMsg p f).Clean := by
  simp only [Inbound.strings, allClean_cons] at hf
  simp [Msg.Clean, Msg.strings, Hub.sayMsg, hp.name, hf.1, hf.2.1, clean_of_sayKinds f.kind_ok]

theorem clean_countSay (hh : h.Clean) (p : Participant) (f : Say) : (h.countSay p f).Clean := by
  have hnext : ({ h with msgCounter := h.msgCounter + 1 } : Hub).Clean := hh.same rfl rfl rfl rfl
  have hsaid : (Hub.modify { h with msgCounter := h.msgCounter + 1 } p.name fun p =>
      { p with lastSay := h.now }).Clean := by
    refine hnext.modify ?_
    exact fun q _ hq => { hq with }
  unfold Hub.countSay Hub.noteSay
  simp only
  split_ifs
  · exact hsaid
  · exact hsaid.same rfl rfl rfl rfl
  · exact hsaid.same rfl rfl rfl rfl

theorem settles_remember (hh : h.Clean) (hp : p.Clean) {f : Say}
    (hf : AllClean (Inbound.say f).strings) :
    Settles (remember env p f) h () (h.remember env p f) := by
  have hmsg : AllClean (Hub.recordOf (h.sayMsg p f)).strings := clean_sayMsg (h := h) hp hf
  refine .get (.write (clean_countSay hh p f) fun hk => .get ?_)
  refine (settles_append hk (r := .msg _ _) hmsg).bind fun hk => .modify { hk with recent := fun r hr => ?_ }
  rcases List.mem_append.mp ((lastN_suffix _ _).subset hr) with hr | hr
  · exact hk.recent r hr
  · rw [List.mem_singleton.mp hr]
    exact hmsg

theorem settles_answer (hh : h.Clean) (p : Participant) (f : Say) (id queuedFor : Nat) :
    Settles (answer env p f id queuedFor) h () (h.answer env p f id queuedFor) := by
  refine Returns.bind (settles_send hh p allClean_nil) fun hk => .get ?_
  exact (Returns.doIf hk fun _ => settles_notify hk _ _).bind fun hk => .modify hk.touchActivity

theorem settles_accept (hh : h.Clean) (hp : p.Clean) {f : Say}
    (hf : AllClean (Inbound.say f).strings) : Settles (accept env p f) h () (h.accept env p f) :=
  .get ((settles_remember hh hp hf).bind fun hk => (settles_route hk (clean_sayMsg hp hf)).bind
    fun hk => settles_answer hk p f _ _)

theorem settles_refuse (hh : h.Clean) (hp : p.Clean) {f : Say}
    (hf : AllClean (Inbound.say f).strings) {code detail : Str} (hcode : Clean code)
    (hdetail : Clean detail) (retryAfter : Option Rat) :
    Settles (refuse env p f code detail retryAfter) h () (h.refuse env p f code detail retryAfter) := by
  simp only [Inbound.strings, allClean_cons] at hf
  refine Returns.bind (settles_send hh p ?_) fun hk => ?_
  · simp [Frame.strings, hcode, hdetail]
  · exact settles_emitRejected hk hp hcode hf.1 (clean_of_sayKinds f.kind_ok) hf.2.1 _ _

theorem settles_refused (hh : h.Clean) (hp : p.Clean) {f : Say}
    (hf : AllClean (Inbound.say f).strings) {code detail : Str} (hcode : Clean code)
    (hdetail : Clean detail) (retryAfter : Option Rat) :
    Settles (refused env p f code detail retryAfter) h false
      (h.refuse env p f code detail retryAfter) :=
  (settles_refuse hh hp hf hcode hdetail retryAfter).bind fun hk => .pure hk _

theorem settles_accepted (hh : h.Clean) (hp : p.Clean) {f : Say}
    (hf : AllClean (Inbound.say f).strings) :
    Settles (accepted env p f) h true (h.accept env p f) :=
  (settles_accept hh hp hf).bind fun hk => .pure hk _

theorem clean_dedupText {f : Say} (hf : AllClean (Inbound.say f).strings) :
    Clean (dedupText f.addressee f.text f.priv) := by
  simp only [Inbound.strings, allClean_cons] at hf
  simp [dedupText, hf.1, hf.2.1]

theorem modify_encodeText_modify (h : Hub) (n key : Str) (g g' : Participant → Participant) :
    ((h.modify n g).encodeText key).modify n g' = (h.encodeText key).modify n (g' ∘ g) :=
  Hub.modify_modify (h.encodeText key) n g g'

theorem settles_routeSay (hh : h.Clean) (n : Str) {f : Say} (hf : AllClean (Inbound.say f).strings) :
    Settles (routeSay env n f) h (h.routeSay env n f).1 (h.routeSay env n f).2 := by
  unfold routeSay Hub.routeSay
  refine .get ?_
  cases hget : h.get? n with
  | none => exact .pure hh _
  | some p =>
    have hp := (hh.roster n p hget).2
    simp only
    split
    · exact settles_refused hh hp hf (clean_str _) (clean_str _) none
    split
    · exact settles_refused hh hp hf (clean_str _) (clean_str _) none
    split
    · exact settles_refused hh hp hf (clean_str _) (by simp [hh.rosterDetail]) none
    split
    · exact settles_accepted hh hp hf
    split
    · refine .write (hh.modify fun q _ hq => { hq with }) fun hk => ?_
      exact settles_refused hk hp hf (clean_str _) (clean_str _) _
    · -- the window is expired before the key is made, and written again behind it
      refine .write (hh.modify fun q _ hq => { hq with }) fun hk => ?_
      refine (settles_encodeText hk (clean_dedupText hf)).bind fun hk => ?_
      refine .write (hk.modify fun q _ hq => { hq with }) fun hk => ?_
      rw [modify_encodeText_modify] at hk ⊢
      split
      · exact settles_refused hk hp hf (clean_str _) (clean_str _) none
      · exact settles_accepted hk hp hf

theorem settles_markDone (hh : h.Clean) (n : Str) :
    Settles (markDone env n) h () (h.markDone env n) := by
  refine .write (hh.modify ?_) fun hk => settles_checkSessionDone hk
  exact fun q _ hq => { hq with }

theorem clean_setIdle (hh : h.Clean) (n : Str) : (h.modify n (·.setIdle)).Clean := by
  refine hh.modify ?_
  exact fun q _ hq => { hq with detail := fun _ hd => by cases hd }

theorem settles_inferIdle (hh : h.Clean) (n : Str) :
    Settles (inferIdle env n) h () (h.inferIdle env n) := by
  unfold inferIdle Hub.inferIdle
  refine .get ?_
  cases h.get? n with
  | none => exact .pure hh ()
  | some p =>
    exact .doIf hh fun _ => .write (clean_setIdle hh n) fun hk => settles_flushQueue hk n

theorem settles_handleSay (hh : h.Clean) (n : Str) {f : Say} (hf : AllClean (Inbound.say f).strings) :
    Settles (handleSay env n f) h () (h.handleSay env n f) := by
  refine (settles_routeSay hh n hf).bind fun hk => (settles_inferIdle hk n).bind fun hk => ?_
  unfold mark
  refine .get ?_
  unfold Hub.handleSay Hub.settle
  simp only
  cases Hub.get? _ n with
  | none => exact .pure hk ()
  | some p =>
    refine .doIf hk fun _ => .ite (fun _ => settles_markDone hk n) fun _ => .modify (hk.modify ?_)
    exact fun q _ hq => { hq with }

/-! ### State, commands, roster -/

theorem settles_handleState (hh : h.Clean) (n : Str) {f : Report}
    (hf : AllClean (Inbound.state f).strings) :
    Settles (handleState env n f) h () (h.handleState env n f) := by
  unfold handleState Hub.handleState
  refine .get ?_
  cases h.get? n with
  | none => exact .pure hh ()
  | some p =>
    refine .write (hh.modify fun q _ hq => { hq with }) fun hk => .ite (fun _ => ?_) fun _ => ?_
    · refine .doIf hk fun _ => .modify ?_
      have hblocked : (Hub.modify (h.modify n (·.setState h.now f.state)) n fun p =>
          { p with blockedSince := some h.now, blockedDetail := f.detail }).Clean := by
        refine hk.modify ?_
        exact fun q _ hq => { hq with detail := (allClean_toList f.detail).mp hf }
      exact hblocked.same rfl rfl rfl rfl
    · refine .write (hk.modify ?_) fun hk => .doIf hk fun _ => settles_flushQueue hk n
      exact fun q _ hq => { hq with detail := fun _ hd => by cases hd }

theorem clean_bufferGoal (hh : h.Clean) {text : Str} (htext : Clean text) :
    (h.bufferGoal text).Clean := by
  refine hh.mapParticipants fun n q _ hq => ?_
  split
  · exact hq
  · refine { hq with context := clean_appended hq.context ?_ }
    simp [Msg.Clean, Msg.strings, Hub.goalMsg, Msg.tag, clean_systemSender, everyone, htext]

theorem settles_writeGoal (hh : h.Clean) {text : Str} (htext : Clean text) :
    Settles (writeGoal text) h () (h.writeGoal text) := by
  unfold writeGoal
  rw [if_pos htext]
  exact .modify (hh.setWire _)

theorem settles_runCommand (hh : h.Clean) {c : Command} {seq : Option Int}
    (hc : AllClean (Inbound.cmd c seq).strings) :
    Settles (runCommand env c) h () (h.runCommand env c) := by
  have hmute : Clean Hub.muteText := clean_str _
  have hunmute : Clean Hub.unmuteText := clean_str _
  cases c with
  | freeze =>
    exact .get (.write (hh.same rfl rfl rfl rfl) fun hk =>
      settles_emitEvent hk (e := .frozen _) allClean_nil none)
  | resume k pos =>
    exact .get (.write (hh.same rfl rfl rfl rfl) fun hk =>
      settles_emitEvent hk (e := .resumed _ _) allClean_nil none)
  | reset =>
    exact .get (.write (hh.same rfl rfl rfl rfl) fun hk =>
      settles_emitEvent hk (e := .reset _ _) allClean_nil none)
  | mute =>
    exact .write (hh.same rfl rfl rfl rfl) fun hk =>
      (settles_emitEvent hk (e := .muted) allClean_nil none).bind fun hk =>
        settles_systemMessage hk hmute
  | unmute =>
    exact .write (hh.same rfl rfl rfl rfl) fun hk =>
      (settles_emitEvent hk (e := .unmuted) allClean_nil none).bind fun hk =>
        settles_systemMessage hk hunmute
  | goal text ok =>
    have htext : Clean text := ((allClean_cons _ _).mp hc).1
    have hgoal : ({ h with goal := text } : Hub).Clean := ⟨hh.roster, hh.dead, hh.recent, htext⟩
    refine .write hgoal fun hk => ?_
    refine (settles_emitEvent hk (e := .goalSet text) ?_ none).bind fun hk => ?_
    · simp [HubEvent.strings, htext]
    · exact .write (clean_bufferGoal hk htext) fun hk => settles_writeGoal hk htext

theorem settles_handleCmd (hh : h.Clean) (n : Str) {c : Command} {seq : Option Int}
    (hc : AllClean (Inbound.cmd c seq).strings) :
    Settles (handleCmd env n c seq) h () (h.handleCmd env n c seq) := by
  unfold handleCmd Hub.handleCmd
  refine .get ?_
  cases h.get? n with
  | none => exact .pure hh ()
  | some p =>
    refine .ite (fun _ => settles_send hh p ?_) fun _ => ?_
    · simp [Frame.strings, errForbidden]
    · exact (settles_runCommand hh hc).bind fun hk => .write hk.touchActivity fun hk =>
        settles_send hk p allClean_nil

theorem clean_rosterPeers (hh : h.Clean) :
    ∀ q ∈ h.participants.values, AllClean (h.rosterPeer q).strings := by
  intro q hq
  have hq := hh.values q hq
  have hfrom : AllClean (sortedStrs (q.queue.map Msg.sender).dedup) := by
    intro s hs
    obtain ⟨m, hm, rfl⟩ := List.mem_map.mp (List.mem_dedup.mp ((mem_sortedStrs _ _).mp hs))
    exact ((allClean_cons _ _).mp (hq.queue m hm)).1
  simp only [Hub.rosterPeer, RosterPeer.strings, Peer.strings, allClean_append, allClean_cons,
    allClean_nil, allClean_toList]
  exact ⟨⟨⟨hq.name, hq.kind, hq.role, trivial⟩, hfrom⟩, hq.detail⟩

theorem settles_handleRoster (hh : h.Clean) (n : Str) (seq : Option Int) :
    Settles (handleRoster env n seq) h () (h.handleRoster env n seq) := by
  unfold handleRoster Hub.handleRoster
  refine .get ?_
  cases h.get? n with
  | none => exact .pure hh ()
  | some p =>
    refine settles_send hh p ?_
    simp only [Frame.strings, allClean_cons, allClean_flatMap, List.forall_mem_map]
    exact ⟨hh.goal, clean_rosterPeers hh⟩

/-! ### Watchdog -/

theorem settles_pingSilent (hh : h.Clean) (n : Str) (p : Participant) :
    Settles (pingSilent env n p) h () (h.pingSilent env n p) := by
  refine .get (.doIf hh fun _ => .write (hh.modify ?_) fun hk =>
    settles_send hk p allClean_nil)
  exact fun q _ hq => { hq with }

theorem settles_assumeIdle (hh : h.Clean) (hp : p.Clean) (n : Str) :
    Settles (assumeIdle env n p) h () (h.assumeIdle env n p) := by
  refine .get (.doIf hh fun _ => .write (clean_setIdle hh n) fun hk => ?_)
  refine (settles_emitEvent hk ?_ none).bind fun hk => settles_flushQueue hk n
  simp [HubEvent.strings, hp.name]

theorem settles_notifyBlocked (hh : h.Clean) (n : Str) :
    Settles (notifyBlocked env n) h () (h.notifyBlocked env n) := by
  unfold notifyBlocked Hub.notifyBlocked
  refine .get ?_
  cases hp : h.get? n with
  | none => exact .pure hh ()
  | some p =>
    have hpc := hh.roster n p hp
    have hdetail : Clean (p.blockedDetail.getD []) := by
      cases hd : p.blockedDetail with
      | none => exact clean_nil
      | some d => exact hpc.2.detail d hd
    refine .doIf hh fun _ => .write (hh.same rfl rfl rfl rfl) fun hk => ?_
    refine (settles_emitEvent hk ?_ none).bind fun hk => settles_notify hk _ _
    simp [HubEvent.strings, hpc.1, hdetail]

theorem settles_tickOne (hh : h.Clean) (n : Str) : Settles (tickOne env n) h () (h.tickOne env n) := by
  unfold tickOne Hub.tickOne
  refine .get ?_
  cases hp : h.get? n with
  | none => exact .pure hh ()
  | some p =>
    refine .ite (fun _ => settles_disconnect hh _) fun _ =>
      .ite (fun _ => settles_disconnect hh _) fun _ => ?_
    refine (settles_pingSilent hh n p).bind fun hk => .unless hk fun _ => ?_
    exact (settles_assumeIdle hk (hh.roster n p hp).2 n).bind fun hk => settles_notifyBlocked hk n

theorem clean_agentNames (hh : h.Clean) {ps : List Participant} (hps : ∀ p ∈ ps, p ∈ h.agents) :
    ∀ s ∈ ps.map (·.name), Clean s := by
  intro s hs
  obtain ⟨p, hp, rfl⟩ := List.mem_map.mp hs
  exact (hh.agents p (hps p hp)).name

theorem settles_checkQuorum (hh : h.Clean) : Settles (checkQuorum env) h () (h.checkQuorum env) := by
  have hnames : Clean (join (str ", ") (sortedStrs (h.expectedAgents.map (·.name)))) :=
    clean_join (clean_str _) fun s hs => clean_agentNames hh (fun p hp => (List.mem_filter.mp hp).1) s
      ((mem_sortedStrs _ _).mp hs)
  unfold checkQuorum Hub.checkQuorum
  refine .get ?_
  cases hasked : h.lastObserverSay with
  | none => exact .pure hh ()
  | some askedAt =>
    -- the case split has put the answer into the states written further down as well
    dsimp only
    rw [← hasked]
    refine .doIf hh fun _ => .write (hh.same rfl rfl rfl rfl) fun hk => ?_
    refine (settles_emitEvent hk ?_ none).bind fun hk => .get ?_
    · simp [HubEvent.strings, hnames]
    · exact .unless hk fun _ => settles_notify hk _ _

theorem clean_orDash {s : Str} (hs : Clean s) : Clean (Hub.orDash s) := by
  unfold Hub.orDash
  split
  · exact clean_str _
  · exact hs

theorem mem_agents_of_sorted (hp : p ∈ h.sortedAgents) : p ∈ h.agents :=
  (List.mem_insertionSort _).mp hp

theorem clean_stallDetail (hh : h.Clean) (htime : ∀ t, Clean (env.timeOfDay t)) :
    Clean (h.stallDetail env) := by
  have hnames : ∀ f : Participant → Bool,
      Clean (join (str ", ") ((h.sortedAgents.filter f).map (·.name))) := fun f =>
    clean_join (clean_str _) (clean_agentNames hh fun p hp =>
      mem_agents_of_sorted (List.mem_filter.mp hp).1)
  have hunread : Clean (join (str ", ")
      ((h.sortedAgents.filter (·.context.items ≠ [])).map fun q =>
        q.name ++ str " " ++ natStr q.context.items.length)) := by
    refine clean_join (clean_str _) fun s hs => ?_
    obtain ⟨q, hq, rfl⟩ := List.mem_map.mp hs
    simp [(hh.agents q (mem_agents_of_sorted (List.mem_filter.mp hq).1)).name]
  unfold Hub.stallDetail
  simp only
  split
  · simp only [clean_append, clean_str, true_and, and_true]
    exact ⟨clean_orDash hunread, htime _⟩
  · simp only [clean_append, clean_str, true_and, and_true]
    exact ⟨⟨clean_orDash hunread, clean_orDash (hnames _)⟩, clean_orDash (hnames _)⟩

theorem settles_checkStall (hh : h.Clean) (htime : ∀ t, Clean (env.timeOfDay t)) :
    Settles (checkStall env) h () (h.checkStall env) := by
  refine .get (.doIf hh fun _ => .write (hh.same rfl rfl rfl rfl) fun hk => ?_)
  refine (settles_emitEvent hk ?_ none).bind fun hk => settles_notify hk _ _
  simp only [HubEvent.strings, allClean_cons, allClean_nil, and_true]
  exact clean_stallDetail hh htime

theorem clean_pruneDead (hh : h.Clean) : (h.pruneDead env).Clean := by
  refine { hh with dead := fun n p hp => ?_ }
  exact hh.dead n p (Dict.get?_filter_eq_some_iff.mp hp).1

theorem settles_watchdogTick (hh : h.Clean) (htime : ∀ t, Clean (env.timeOfDay t)) :
    Settles (watchdogTick env) h () (h.watchdogTick env) := by
  refine .write (clean_pruneDead hh) fun hk => .get ?_
  refine (Returns.forM hk fun n _ _ hk => settles_tickOne hk n).bind fun hk => ?_
  exact (settles_checkQuorum hk).bind fun hk => settles_checkStall hk htime

/-! ### Dispatch -/

theorem settles_dispatch (hh : h.Clean) (c : ClientId) {f : Inbound} (hf : AllClean f.strings) :
    Settles (dispatch env c f) h () (h.dispatch env c f) := by
  unfold dispatch Hub.dispatch
  refine .get ?_
  simp only
  cases h.get? (h.wire.clients c).name with
  | none => exact settles_errRaw hh (clean_str _) (clean_str _) none
  | some p =>
    refine .write (hh.modify fun q _ hq => { hq with }) fun hk => ?_
    cases f with
    | hello f => exact .pure hk ()
    | say f => exact settles_handleSay hk _ hf
    | state f => exact settles_handleState hk _ hf
    | cmd cmd seq => exact settles_handleCmd hk _ hf
    | roster seq => exact settles_handleRoster hk _ seq
    | bye => exact settles_disconnect hk c
    | pong => exact .pure hk ()

theorem settles_handleInbound (hh : h.Clean) (c : ClientId) {f : Inbound}
    (hf : AllClean f.strings) :
    Settles (handleInbound env c f) h () (h.handleInbound env c f) := by
  cases f with
  | hello f => exact settles_handleHello hh hf c
  | _ => exact settles_dispatch hh c hf

end

end HubM

/-! ## Operations and runs -/

section
variable {F : Type} [PyJson.PyFloat F]

/-- The strings that the operation brings: those of its frame, if that is valid. -/
def Op.strings (env : Env) : Op F → List Str
  | .handle _ frame =>
    match validate env.isPrintable frame with
    | .ok f => f.strings
    | .error _ => []
  | _ => []

/-- The operation brings no lone surrogate. -/
def Op.Clean (env : Env) (op : Op F) : Prop := AllClean (op.strings env)

instance (env : Env) (op : Op F) : Decidable (op.Clean env) :=
  inferInstanceAs (Decidable (AllClean (op.strings env)))

namespace Hub

variable {env : Env} {h : Hub}

theorem settles_perform (htime : ∀ t, Py.Clean (env.timeOfDay t)) (hh : h.Clean) {op : Op F}
    (hop : op.Clean env) : Settles (HubM.perform env op) h () (h.step env op) := by
  cases op with
  | handle c frame =>
    show Settles (HubM.handle env c frame) h () (h.handle env c frame)
    unfold HubM.handle Hub.handle
    unfold Op.Clean Op.strings at hop
    cases hv : validate env.isPrintable frame with
    | error e =>
      obtain ⟨hcode, hdetail⟩ := saysClean_validate e hv
      exact HubM.settles_errRaw hh hcode hdetail e.seq
    | ok f =>
      simp only [hv] at hop
      exact HubM.settles_handleInbound hh c hop
  | disconnect c => exact HubM.settles_disconnect hh c
  | watchdogTick => exact HubM.settles_watchdogTick hh htime
  | clock now wall => exact .modify (hh.same rfl rfl rfl rfl)
  | fail c => exact .modify (hh.same rfl rfl rfl rfl)

/-- **An operation on clean strings** returns, and does what the operation does that runs to its
end. -/
theorem attempt_eq (htime : ∀ t, Py.Clean (env.timeOfDay t)) (hh : h.Clean) {op : Op F}
    (hop : op.Clean env) :
    h.fails env op = false ∧ h.attempt env op = h.step env op ∧ (h.step env op).Clean :=
  have hs := settles_perform htime hh hop
  ⟨hs.raises_eq, hs.left_eq, hs.keeps⟩

/-- The operation returns, and has done what it does when it runs to its end. -/
structure Ends (env : Env) (h : Hub) (op : Op F) : Prop where
  fine : h.fails env op = false
  same : h.attempt env op = h.step env op

theorem ends_of_clean (htime : ∀ t, Py.Clean (env.timeOfDay t)) (hh : h.Clean) (op : Op F)
    (hop : op.Clean env) : h.Ends env op :=
  have hall := attempt_eq htime hh hop
  ⟨hall.1, hall.2.1⟩

theorem clean_init {records : List MsgRec} (hr : ∀ r ∈ records, AllClean r.strings)
    (now wall : Rat) : (init env records now wall).Clean where
  roster _ _ hp := by cases hp
  dead _ _ hp := by cases hp
  recent r hmem := hr r ((lastN_suffix _ _).subset hmem)
  goal := clean_nil

/-- Everything the run is given can be encoded: the time of day, the messages of earlier hubs, and
what the operations bring. -/
structure CleanRun (env : Env) (records : List MsgRec) (ops : List (Op F)) : Prop where
  time : ∀ t, Py.Clean (env.timeOfDay t)
  records : ∀ r ∈ records, AllClean r.strings
  ops : ∀ op ∈ ops, op.Clean env

section
variable {records : List MsgRec} {ops : List (Op F)}

theorem CleanRun.init (hc : CleanRun env records ops) (now wall : Rat) :
    (Hub.init env records now wall).Clean := clean_init hc.records now wall

theorem CleanRun.steps (hc : CleanRun env records ops) (h : Hub) (hh : h.Clean) (op : Op F)
    (hop : op ∈ ops) : h.attempt env op = h.step env op ∧ (h.step env op).Clean :=
  (attempt_eq hc.time hh (hc.ops op hop)).2

/-- **A run on clean strings** is the run of the operations that run to their end. -/
theorem CleanRun.after_eq (hc : CleanRun env records ops) (now wall : Rat) :
    Run.after (Hub.attempt env) (Hub.init env records now wall) ops =
        Run.after (Hub.step env) (Hub.init env records now wall) ops ∧
      (Run.after (Hub.step env) (Hub.init env records now wall) ops).Clean :=
  Run.after_congr (hc.init now wall) fun h hh op hop => hc.steps h hh op hop

theorem CleanRun.sound (hc : CleanRun env records ops) (now wall : Rat) :
    (Run.after (Hub.attempt env) (Hub.init env records now wall) ops).Wf ∧
      (Run.after (Hub.attempt env) (Hub.init env records now wall) ops).Clean := by
  obtain ⟨heq, hclean⟩ := hc.after_eq now wall
  rw [heq]
  exact ⟨wf_run env records now wall ops, hclean⟩

/-- The same for a machine that has a hub in its state. -/
theorem CleanRun.congr {σ : Type} (hc : CleanRun env records ops) (hub : σ → Hub) {s : σ}
    (hs : (hub s).Clean) {f f' : σ → Op F → σ}
    (hsame : ∀ s op, (hub s).attempt env op = (hub s).step env op → f s op = f' s op)
    (hhub : ∀ s op, hub (f' s op) = (hub s).step env op) :
    Run.after f s ops = Run.after f' s ops :=
  (Run.after_congr (I := fun s => (hub s).Clean) hs fun s hs op hop => by
    obtain ⟨heq, hclean⟩ := hc.steps (hub s) hs op hop
    exact ⟨hsame s op heq, by rw [hhub]; exact hclean⟩).1

/-- **Invariant rule** for a run on clean strings, with a ghost component: every operation of it
runs to its end. -/
theorem CleanRun.invariant {γ : Type} {I : γ → Hub → Prop} {P : Hub → Op F → Prop} {g : γ}
    (hc : CleanRun env records ops) (now wall : Rat) (write : γ → Hub → Op F → γ)
    (hP : Run.Always (Hub.attempt env) P (Hub.init env records now wall) ops)
    (hinit : I g (Hub.init env records now wall))
    (hstep : ∀ g h op, h.Wf → I g h → P h op → h.Ends env op →
      I (write g h op) (h.attempt env op)) :
    I (Run.after (Run.withGhost (Hub.attempt env) write) (g, Hub.init env records now wall) ops).1
      (Run.after (Hub.attempt env) (Hub.init env records now wall) ops) := by
  have hall := Run.invariant (I := fun x : γ × Hub => x.2.Wf ∧ x.2.Clean ∧ I x.1 x.2)
    (fun x op hx hop => by
      have hends : x.2.Ends env op := ends_of_clean hc.time hx.2.1 op hop.2
      have hsame : (Run.withGhost (Hub.attempt env) write x op).2 = x.2.step env op := hends.same
      refine ⟨?_, ?_, hstep x.1 x.2 op hx.1 hx.2.2 hop.1 hends⟩
      · rw [hsame]
        exact hx.1.step env op
      · rw [hsame]
        exact (attempt_eq hc.time hx.2.1 hop.2).2.2)
    (s := (g, Hub.init env records now wall))
    ⟨wf_init env records now wall, hc.init now wall, hinit⟩
    (Run.always_and (hP.withGhost g) hc.ops)
  rw [Run.after_withGhost] at hall
  exact hall.2.2

theorem CleanRun.preserved {γ : Type} {I : γ → Hub → Prop} {g : γ}
    (hc : CleanRun env records ops) (now wall : Rat) (write : γ → Hub → Op F → γ)
    (hinit : I g (Hub.init env records now wall))
    (hstep : ∀ g h op, h.Wf → I g h → h.Ends env op → I (write g h op) (h.attempt env op)) :
    I (Run.after (Run.withGhost (Hub.attempt env) write) (g, Hub.init env records now wall) ops).1
      (Run.after (Hub.attempt env) (Hub.init env records now wall) ops) :=
  hc.invariant (P := fun _ _ => True) now wall write
    (Run.always_of_invariant (I := fun _ => True) (fun _ _ _ => trivial) (fun _ _ _ => trivial)
      trivial ops)
    hinit fun g h op hw hi _ hends => hstep g h op hw hi hends

end

end Hub

end

end Moot
