import Moot.Hub.Mirror
import Moot.Hub.Reply

/-!
# What a client is told

The frames that a log sends to one client, those that reach it, and the replies among
them.  A reply goes to the client whose frame it answers, so whatever else the hub does
adds no reply to the others.

Proved here: `told_others`.
-/

namespace Moot
open Py PyJson Proto

/-! ## What a client is sent -/

/-- The frame an effect sends to the client `c`, and whether it was connected. -/
def Effect.sendTo? (c : ClientId) : Effect → Option (Bool × Frame)
  | .send _ d up f => if d = c then some (up, f) else none
  | _ => none

/-- The frames sent to the client `c` in a log. -/
def sendsTo (c : ClientId) (log : List Effect) : List (Bool × Frame) := log.filterMap (·.sendTo? c)

/-- Those that reach it: after the first that finds the connection broken there are none. -/
def reached (c : ClientId) (log : List Effect) : List Frame :=
  ((sendsTo c log).takeWhile Prod.fst).map Prod.snd

/-- The number of the request that a reply answers. -/
def Frame.answers : Frame → Option Int
  | .said _ _ seq => some seq
  | .ok seq => seq
  | .err _ _ seq _ => seq
  | _ => none

/-- The replies among the frames sent to the client `c`. -/
def repliesTo (c : ClientId) (log : List Effect) : List Frame :=
  ((sendsTo c log).map Prod.snd).filter Frame.isReply

section
variable {c : ClientId} {log es : List Effect}

theorem sendsTo_append (c : ClientId) (l l' : List Effect) :
    sendsTo c (l ++ l') = sendsTo c l ++ sendsTo c l' := List.filterMap_append

theorem repliesTo_append (c : ClientId) (l l' : List Effect) :
    repliesTo c (l ++ l') = repliesTo c l ++ repliesTo c l' := by
  rw [repliesTo, sendsTo_append, List.map_append, List.filter_append]
  rfl

theorem reached_append (c : ClientId) (l l' : List Effect) : reached c l <+: reached c (l ++ l') := by
  rw [reached, reached, sendsTo_append, List.takeWhile_append]
  split
  · rw [List.map_append]
    exact ((List.takeWhile_prefix _).map _).trans (List.prefix_append _ _)
  · exact List.prefix_rfl

theorem reached_initial (c : ClientId) (log : List Effect) :
    (reached c log).filter Frame.isReply <+: repliesTo c log :=
  ((List.takeWhile_prefix _).map _).filter _

/-- What reaches a client was sent while it was connected. -/
theorem mem_framesTo_of_reached {f : Frame} (hf : f ∈ reached c log) : f ∈ framesTo c log := by
  obtain ⟨⟨up, f'⟩, hmem, rfl⟩ := List.mem_map.mp hf
  have hup : up = true := List.mem_takeWhile_imp hmem
  obtain ⟨e, he, hsend⟩ := List.mem_filterMap.mp ((List.takeWhile_prefix _).subset hmem)
  refine List.mem_filterMap.mpr ⟨e, he, ?_⟩
  cases e with
  | send name d up' g =>
    rw [Effect.sendTo?] at hsend
    split at hsend
    · next hd =>
      cases hsend
      rw [hup, Effect.frameTo?, if_pos hd]
    · cases hsend
  | _ => cases hsend

/-- On a connection that never broke everything reaches its client. -/
theorem reached_eq (hlog : ∀ name f, Effect.send name c false f ∉ log) :
    (reached c log).filter Frame.isReply = repliesTo c log := by
  have hall : (sendsTo c log).takeWhile Prod.fst = sendsTo c log := by
    rw [List.takeWhile_eq_self_iff]
    rintro ⟨up, f⟩ hmem
    obtain ⟨e, he, hsend⟩ := List.mem_filterMap.mp hmem
    cases e with
    | send name d up' g =>
      rw [Effect.sendTo?] at hsend
      split at hsend
      · next hd =>
        cases hsend
        cases up with
        | true => rfl
        | false =>
          rw [hd] at he
          exact absurd he (hlog _ _)
      · cases hsend
    | _ => cases hsend
  rw [reached, hall, repliesTo]

theorem repliesTo_eq (c : ClientId) (log : List Effect) :
    repliesTo c log = ((replies log).filter fun r => r.1 = c).map Prod.snd := by
  induction log with
  | nil => rfl
  | cons e log ih =>
    have hone : repliesTo c [e] = ((replies [e]).filter fun r => r.1 = c).map Prod.snd := by
      cases e with
      | send name d up f =>
        by_cases hd : d = c <;> cases hf : f.isReply <;>
          simp [repliesTo, sendsTo, Effect.sendTo?, replies, Effect.reply, hd, hf]
      | _ => rfl
    have happend : replies (e :: log) = replies [e] ++ replies log := List.filterMap_append (l := [e])
    rw [← List.singleton_append, repliesTo_append, hone, ih, List.singleton_append, happend,
      List.filter_append, List.map_append]

end

namespace Hub

/-! ## The tick answers nobody -/

section
variable (env : Env) (h : Hub)

theorem hushed_pingSilent (n : Str) (p : Participant) : Hushed h (h.pingSilent env n p) := by
  unfold pingSilent
  split
  · exact Wrote.trans (wrote_nothing rfl) (wrote_one rfl rfl)
  · exact wrote_nothing rfl

theorem hushed_assumeIdle (n : Str) (p : Participant) : Hushed h (h.assumeIdle env n p) := by
  unfold assumeIdle
  split
  · exact (Wrote.trans (wrote_nothing rfl) (hushed_emitEvent env (h.modify n (·.setIdle)) _ none)).trans
      (hushed_flushQueue env _ n)
  · exact wrote_nothing rfl

theorem hushed_notifyBlocked (n : Str) : Hushed h (h.notifyBlocked env n) := by
  unfold notifyBlocked
  split
  · exact wrote_nothing rfl
  · split
    · exact (Wrote.trans (wrote_nothing rfl)
        (hushed_emitEvent env { h with blockedNotified := h.blockedNotified ++ [n] } _ none)).trans
        (hushed_notify env _ _ _)
    · exact wrote_nothing rfl

theorem hushed_tickOne (n : Str) : Hushed h (h.tickOne env n) := by
  unfold tickOne
  split
  · exact wrote_nothing rfl
  · next p _ =>
    split
    · exact hushed_disconnect env h _
    · split
      · exact hushed_disconnect env h _
      · have hping := hushed_pingSilent env h n p
        simp only
        split
        · exact hping
        · exact (hping.trans (hushed_assumeIdle env _ n p)).trans (hushed_notifyBlocked env _ n)

theorem hushed_checkQuorum : Hushed h (h.checkQuorum env) := by
  unfold checkQuorum
  split
  · exact wrote_nothing rfl
  · split
    · have htold := fun e => Wrote.trans (wrote_nothing rfl)
        (hushed_emitEvent env { h with quorumLatched := true } e none)
      simp only
      split
      · exact htold _
      · exact (htold _).trans (hushed_notify env _ _ _)
    · exact wrote_nothing rfl

theorem hushed_checkStall : Hushed h (h.checkStall env) := by
  unfold checkStall
  split
  · exact (Wrote.trans (wrote_nothing rfl)
      (hushed_emitEvent env { h with stallLatched := true } _ none)).trans (hushed_notify env _ _ _)
  · exact wrote_nothing rfl

theorem hushed_watchdogTick : Hushed h (h.watchdogTick env) := by
  have hprune : Hushed h (h.pruneDead env) := wrote_nothing rfl
  have hticks := tick_invariant env (I := Hushed h) (fun k n hk => hk.trans (hushed_tickOne env k n))
    hprune (h.pruneDead env).participants.keys
  exact (hticks.trans (hushed_checkQuorum env _)).trans (hushed_checkStall env _)

end

/-! ## Who is answered -/

/-- The registration under the name of the client is the client's. -/
def Owns (h : Hub) (c : ClientId) : Prop := ∀ p, h.get? (h.wire.clients c).name = some p → p.client = c

instance (h : Hub) (c : ClientId) : Decidable (h.Owns c) :=
  decidable_of_iff ((h.get? (h.wire.clients c).name).all (fun p => p.client = c) = true) (by
    rw [Option.all_eq_true]
    exact ⟨fun hall p hp => of_decide_eq_true (hall p hp), fun hown p hp => decide_eq_true (hown p hp)⟩)

/-- The log has grown by `es`, with these replies to `c`. -/
structure Grows (c : ClientId) (rs : List Frame) (h h' : Hub) (es : List Effect) : Prop where
  log : h'.wire.log = h.wire.log ++ es
  replies : repliesTo c es = rs

section
variable {F : Type} [PyFloat F] {env : Env} {h h' : Hub} {c d : ClientId} {records : List MsgRec}

theorem Hushed.told (hh : Hushed h h') (c : ClientId) : ∃ es, Grows c [] h h' es := by
  obtain ⟨es, hes, hnone⟩ := hh.replied
  exact ⟨es, hes, by rw [repliesTo_eq, hnone]; rfl⟩

theorem Replied.told {r : Frame} (hr : Replied [(d, r)] h h') (c : ClientId) :
    ∃ es, Grows c (if d = c then [r] else []) h h' es := by
  obtain ⟨es, hes, hone⟩ := hr
  refine ⟨es, hes, ?_⟩
  rw [repliesTo_eq, hone]
  split
  · next hd => simp [hd]
  · next hd => simp [hd]

/-- **What others do** is not answered to `c`. -/
theorem told_others (hk : Kept records h) {op : Op F}
    (hop : ∀ d frame, op = .handle d frame → d ≠ c ∧ h.Owns d) :
    ∃ es, Grows c [] h (h.step env op) es := by
  cases op with
  | handle d frame =>
    obtain ⟨hd, hown⟩ := hop d frame rfl
    have hall := answered env hk hown frame
    split at hall
    · exact hall.told c
    · obtain ⟨r, hr, -⟩ := hall
      have htold := hr.told c
      rwa [if_neg hd] at htold
  | disconnect d => exact (hushed_disconnect env h d).told c
  | watchdogTick => exact (hushed_watchdogTick env h).told c
  | clock now wall => exact ⟨[], (List.append_nil _).symm, rfl⟩
  | fail d => exact ⟨[], (List.append_nil _).symm, rfl⟩

end

end Hub

end Moot
