import Moot.Hub.Handlers

/-!
# What the hub's functions leave alone

`Wire.Le` is what every function does to the wire: names stay, connections only
go down, the log only grows.  A function is quiet (`Hub.Quiet`) if it touches
nothing but the wire and logs neither a delivery nor a record of a join, a leave,
an accepted say or the end of a session: most of the hub's functions are quiet or
end in quiet ones.
-/

namespace Moot
open Py Proto

/-! ## The log -/

/-- The deliver frame an effect hands to `n`. -/
def Effect.delivery? (n : Str) : Effect → Option (List Msg)
  | .send m _ _ (.deliver _ msgs) => if m = n then some msgs else none
  | _ => none

/-- The accepted say an effect records. -/
def Effect.said? : Effect → Option MsgRec
  | .append _ (.msg _ r) => some r
  | _ => none

/-- The effect records who is there or who has finished: a join, a leave, an accepted say, the end
of a session. -/
def Effect.marking : Effect → Bool
  | .append _ (.msg ..) => true
  | .append _ (.event (.sessionDone _) _) => true
  | .append _ (.event (.peerJoined ..) _) => true
  | .append _ (.event (.peerLeft _) _) => true
  | _ => false

/-- The deliver frames to `n` in a log. -/
def deliveries (n : Str) (log : List Effect) : List (List Msg) := log.filterMap (·.delivery? n)

/-- The accepted says in a log. -/
def said (log : List Effect) : List MsgRec := log.filterMap Effect.said?

/-- The effect is neither a delivery nor such a record. -/
def Effect.silent : Effect → Bool
  | .send _ _ _ (.deliver ..) => false
  | e => !e.marking

theorem Effect.silent_delivery? {e : Effect} (h : e.silent = true) (n : Str) :
    e.delivery? n = none := by
  unfold Effect.delivery?
  split
  · cases h
  · rfl

theorem Effect.silent_said? {e : Effect} (h : e.silent = true) : e.said? = none := by
  unfold Effect.said?
  split
  · cases h
  · rfl

theorem Effect.silent_marking {e : Effect} (h : e.silent = true) : e.marking = false := by
  unfold Effect.silent at h
  split at h
  · cases h
  · simpa using h

@[simp] theorem deliveries_append (n : Str) (l l' : List Effect) :
    deliveries n (l ++ l') = deliveries n l ++ deliveries n l' := List.filterMap_append

@[simp] theorem said_append (l l' : List Effect) : said (l ++ l') = said l ++ said l' :=
  List.filterMap_append

/-! ## Wire -/

/-- Time passes on the wire. -/
structure Wire.Le (w w' : Wire) : Prop where
  name : ∀ c, (w'.clients c).name = (w.clients c).name
  down : ∀ c, (w'.clients c).connected = true → (w.clients c).connected = true
  log : w.log <+: w'.log

theorem Wire.Le.refl (w : Wire) : w.Le w := ⟨fun _ => rfl, fun _ h => h, List.prefix_refl _⟩

theorem Wire.Le.trans {a b c : Wire} (hab : a.Le b) (hbc : b.Le c) : a.Le c :=
  ⟨fun x => (hbc.name x).trans (hab.name x), fun x h => hab.down x (hbc.down x h),
    hab.log.trans hbc.log⟩

/-- Time passes, and what is logged is silent. -/
structure Wire.Quiet (w w' : Wire) : Prop extends Wire.Le w w' where
  silent : ∃ es, w'.log = w.log ++ es ∧ ∀ e ∈ es, e.silent = true

theorem Wire.Quiet.refl (w : Wire) : w.Quiet w := ⟨.refl w, [], by simp, by simp⟩

theorem Wire.Quiet.trans {a b c : Wire} (hab : a.Quiet b) (hbc : b.Quiet c) : a.Quiet c := by
  obtain ⟨es, hes, hes'⟩ := hab.silent
  obtain ⟨fs, hfs, hfs'⟩ := hbc.silent
  refine ⟨hab.toLe.trans hbc.toLe, es ++ fs, by rw [hfs, hes, List.append_assoc], ?_⟩
  intro e he
  rcases List.mem_append.mp he with he | he
  · exact hes' e he
  · exact hfs' e he

/-- A view of the log that skips silent effects does not see a quiet step. -/
theorem Wire.Quiet.view {w w' : Wire} (h : w.Quiet w') {β : Type} {f : Effect → Option β}
    (hf : ∀ e, e.silent = true → f e = none) : w'.log.filterMap f = w.log.filterMap f := by
  obtain ⟨es, hes, hsilent⟩ := h.silent
  have hnil : es.filterMap f = [] :=
    List.filterMap_eq_nil_iff.mpr fun e he => hf e (hsilent e he)
  rw [hes, List.filterMap_append, hnil, List.append_nil]

theorem Wire.Quiet.deliveries {w w' : Wire} (h : w.Quiet w') (n : Str) :
    deliveries n w'.log = deliveries n w.log := h.view fun _ he => Effect.silent_delivery? he n

theorem Wire.Quiet.said {w w' : Wire} (h : w.Quiet w') : said w'.log = said w.log :=
  h.view fun _ he => Effect.silent_said? he

theorem Wire.le_effect (w : Wire) (e : Effect) : w.Le (w.effect e) :=
  ⟨fun _ => rfl, fun _ h => h, List.prefix_append _ _⟩

theorem Wire.le_tick (env : Env) (w : Wire) : w.Le (w.tick env) :=
  ⟨fun _ => rfl, fun _ h => (Bool.and_eq_true_iff.mp h).1, List.prefix_refl _⟩

theorem Wire.quiet_effect (w : Wire) {e : Effect} (h : e.silent = true) : w.Quiet (w.effect e) :=
  ⟨w.le_effect e, [e], rfl, by simpa using h⟩

theorem Wire.quiet_tick (env : Env) (w : Wire) : w.Quiet (w.tick env) :=
  ⟨w.le_tick env, [], (List.append_nil _).symm, by simp⟩

theorem Wire.le_send (env : Env) (w : Wire) (name : Str) (c : ClientId) (f : Frame) :
    w.Le (w.send env name c f) := (w.le_effect _).trans (Wire.le_tick env _)

theorem Wire.quiet_send (env : Env) (w : Wire) (name : Str) (c : ClientId) {f : Frame}
    (h : ∀ r ms, f ≠ .deliver r ms) : w.Quiet (w.send env name c f) := by
  refine (w.quiet_effect ?_).trans (Wire.quiet_tick env _)
  cases f with
  | deliver r ms => exact absurd rfl (h r ms)
  | _ => rfl

theorem Wire.quiet_close (w : Wire) (c : ClientId) : w.Quiet (w.close c) := by
  refine ⟨⟨fun d => ?_, fun d h => ?_, List.prefix_append _ _⟩, [.close c], rfl, by
    simp [Effect.silent, Effect.marking]⟩
  · by_cases hd : d = c
    · subst hd; simp [Wire.close]
    · simp [Wire.close, hd]
  · by_cases hd : d = c
    · subst hd; simp [Wire.close] at h
    · simpa [Wire.close, hd] using h

namespace Hub

/-! ## Functions that touch the wire alone -/

@[simp] theorem setWire_wire (h : Hub) (w : Wire) : (h.setWire w).wire = w := rfl

/-- The step changes the wire only, and quietly. -/
structure Quiet (h h' : Hub) : Prop where
  wire : h.wire.Quiet h'.wire
  rest : h' = h.setWire h'.wire

theorem Quiet.refl (h : Hub) : h.Quiet h := ⟨.refl _, rfl⟩

theorem Quiet.trans {a b c : Hub} (hab : a.Quiet b) (hbc : b.Quiet c) : a.Quiet c := by
  refine ⟨hab.wire.trans hbc.wire, ?_⟩
  have hc := hbc.rest
  rw [hab.rest] at hc
  exact hc

/-- Whatever does not look at the wire is the same after a quiet step. -/
theorem Quiet.same {h h' : Hub} (hq : h.Quiet h') {α : Type} (f : Hub → α)
    (hf : ∀ h w, f (setWire h w) = f h) : f h' = f h := by
  rw [hq.rest, hf]

theorem Quiet.participants {h h' : Hub} (hq : h.Quiet h') : h'.participants = h.participants :=
  hq.same Hub.participants fun _ _ => rfl

theorem Quiet.dead {h h' : Hub} (hq : h.Quiet h') : h'.dead = h.dead :=
  hq.same Hub.dead fun _ _ => rfl

theorem quiet_setWire {h : Hub} {w : Wire} (hw : h.wire.Quiet w) : h.Quiet (h.setWire w) :=
  ⟨hw, rfl⟩

section
variable (env : Env) (h : Hub)

theorem quiet_send (p : Participant) {f : Frame} (hf : ∀ r ms, f ≠ .deliver r ms) :
    h.Quiet (h.send env p f) := quiet_setWire (Wire.quiet_send env _ _ _ hf)

theorem quiet_err (p : Participant) (code detail : Str) (seq : Option Int) (r : Option Rat) :
    h.Quiet (h.err env p code detail seq r) := h.quiet_send env p (by simp)

theorem quiet_errRaw (c : ClientId) (code detail : Str) (seq : Option Int) :
    h.Quiet (h.errRaw env c code detail seq) := quiet_setWire (Wire.quiet_send env _ _ _ (by simp))

theorem quiet_append {r : Record} (hr : (Effect.append h.wall r).silent = true) :
    h.Quiet (h.append r) := quiet_setWire (Wire.quiet_effect _ hr)

theorem quiet_tellEvent (e : HubEvent) (skip : Option Str) (w : Wire) (p : Participant) :
    w.Quiet (tellEvent env e skip w p) := by
  unfold tellEvent
  split
  · exact Wire.quiet_send env _ _ _ (by simp)
  · exact .refl w

theorem quiet_tellAll (e : HubEvent) (skip : Option Str) (ps : List Participant) (w : Wire) :
    w.Quiet (ps.foldl (tellEvent env e skip) w) := by
  induction ps generalizing w with
  | nil => exact .refl w
  | cons p ps ih => exact (quiet_tellEvent env e skip w p).trans (ih _)

theorem quiet_emitEvent {e : HubEvent} (skip : Option Str)
    (he : (Effect.append h.wall (.event e h.wall)).silent = true) :
    h.Quiet (h.emitEvent env e skip) :=
  (quiet_setWire (quiet_tellAll env e skip _ _)).trans (quiet_append _ he)

theorem quiet_encodeText (s : Str) : h.Quiet (h.encodeText s) :=
  quiet_setWire (Wire.quiet_effect _ rfl)

theorem quiet_emitRejected (p : Participant) (code addressee kind text : Str) (r : Option Rat)
    (priv : Bool) : h.Quiet (h.emitRejected env p code addressee kind text r priv) := by
  unfold emitRejected
  split
  · exact .refl h
  · exact (h.quiet_encodeText _).trans (quiet_emitEvent env _ _ rfl)

theorem quiet_notify (title message : Str) : h.Quiet (h.notify env title message) := by
  unfold notify
  split
  · exact quiet_setWire ((Wire.quiet_effect _ rfl).trans (Wire.quiet_tick env _))
  · exact .refl h

theorem quiet_refuse (p : Participant) (f : Say) (code detail : Str) (r : Option Rat) :
    h.Quiet (h.refuse env p f code detail r) :=
  (h.quiet_err env p code detail _ r).trans (quiet_emitRejected env _ _ _ _ _ _ _ _)

theorem quiet_writeGoal (text : Str) : h.Quiet (h.writeGoal text) :=
  quiet_setWire (Wire.quiet_effect _ rfl)

theorem quiet_handleRoster (n : Str) (seq : Option Int) : h.Quiet (h.handleRoster env n seq) := by
  unfold handleRoster
  split
  · exact .refl h
  · exact h.quiet_send env _ (by simp)

end

end Hub

end Moot
