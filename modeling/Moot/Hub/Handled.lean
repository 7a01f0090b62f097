import Moot.Hub.Registry

/-!
# Operations, handler by handler

An operation runs a few handlers of `core/hub.py`.  What each of them preserves
when it is called as the source calls it (`Hub.Handled`), an operation preserves.
A condition `A` on a participant's name and kind and on its frame restricts the
frames that are handled.

Proved here: `Handled.step` and `Handled.run`, the rules that the later
invariants use.
-/

namespace Moot
open Py Proto

namespace Hub

/-- A condition on the frames: the name and the kind of the participant, and the frame. -/
abbrev Filter := Str → Str → Inbound → Prop

def anyFrame : Filter := fun _ _ _ => True

/-- Every handler, called as the source calls it on a frame that meets `A`, preserves `I`. -/
structure Handled (env : Env) (A : Filter) (I : Hub → Prop) : Prop where
  errRaw : ∀ h c code detail seq, h.Wf → I h → I (h.errRaw env c code detail seq)
  lifeSign : ∀ h n, h.Wf → I h → I (h.lifeSign n)
  routeSay : ∀ h n p f, h.Wf → h.get? n = some p → A n p.kind (.say f) → I h →
    I (h.routeSay env n f).2
  inferIdle : ∀ h n p f, h.Wf → h.get? n = some p → A n p.kind (.say f) → I h →
    I (h.inferIdle env n)
  markDone : ∀ h n p, h.Wf → h.get? n = some p → p.isObserver = false → I h → I (h.markDone env n)
  goOn : ∀ h n p, h.Wf → h.get? n = some p → p.isObserver = false → I h →
    I (h.modify n fun p => { p with finished := false })
  handleState : ∀ h n p f, h.Wf → h.get? n = some p → A n p.kind (.state f) → I h →
    I (h.handleState env n f)
  handleCmd : ∀ h n p c seq, h.Wf → h.get? n = some p → A n p.kind (.cmd c seq) → I h →
    I (h.handleCmd env n c seq)
  handleRoster : ∀ h n seq, h.Wf → I h → I (h.handleRoster env n seq)
  disconnect : ∀ h c, h.Wf → I h → I (h.disconnect env c)
  declareRoom : ∀ h f, h.Wf → A f.name f.kind (.hello f) → I h → I (h.declareRoom f)
  turnAway : ∀ h c n, h.Wf → I h → I (h.turnAway env c n)
  register : ∀ h c f, h.Wf → (h.wire.clients c).name = [] → h.get? f.name = none →
    A f.name f.kind (.hello f) → I h → I (h.register env c f)
  pingSilent : ∀ h n p, h.Wf → h.get? n = some p → I h → I (h.pingSilent env n p)
  assumeIdle : ∀ h n p, h.Wf → (∃ q, h.get? n = some q ∧ q.Same p ∧ q.state = p.state ∧
    q.busySince = p.busySince) → p.isObserver = false → I h → I (h.assumeIdle env n p)
  notifyBlocked : ∀ h n, h.Wf → I h → I (h.notifyBlocked env n)
  checkQuorum : ∀ h, h.Wf → I h → I (h.checkQuorum env)
  checkStall : ∀ h, h.Wf → I h → I (h.checkStall env)
  fail : ∀ h c, h.Wf → I h → I (h.setWire
    { h.wire with
      clients := Function.update h.wire.clients c { h.wire.clients c with connected := false } })

/-- The same, without the two checks that end a tick of the watchdog. -/
structure Handles (env : Env) (A : Filter) (I : Hub → Prop) : Prop where
  errRaw : ∀ h c code detail seq, h.Wf → I h → I (h.errRaw env c code detail seq)
  lifeSign : ∀ h n, h.Wf → I h → I (h.lifeSign n)
  routeSay : ∀ h n p f, h.Wf → h.get? n = some p → A n p.kind (.say f) → I h →
    I (h.routeSay env n f).2
  inferIdle : ∀ h n p f, h.Wf → h.get? n = some p → A n p.kind (.say f) → I h →
    I (h.inferIdle env n)
  markDone : ∀ h n p, h.Wf → h.get? n = some p → p.isObserver = false → I h → I (h.markDone env n)
  goOn : ∀ h n p, h.Wf → h.get? n = some p → p.isObserver = false → I h →
    I (h.modify n fun p => { p with finished := false })
  handleState : ∀ h n p f, h.Wf → h.get? n = some p → A n p.kind (.state f) → I h →
    I (h.handleState env n f)
  handleCmd : ∀ h n p c seq, h.Wf → h.get? n = some p → A n p.kind (.cmd c seq) → I h →
    I (h.handleCmd env n c seq)
  handleRoster : ∀ h n seq, h.Wf → I h → I (h.handleRoster env n seq)
  disconnect : ∀ h c, h.Wf → I h → I (h.disconnect env c)
  declareRoom : ∀ h f, h.Wf → A f.name f.kind (.hello f) → I h → I (h.declareRoom f)
  turnAway : ∀ h c n, h.Wf → I h → I (h.turnAway env c n)
  register : ∀ h c f, h.Wf → (h.wire.clients c).name = [] → h.get? f.name = none →
    A f.name f.kind (.hello f) → I h → I (h.register env c f)
  pingSilent : ∀ h n p, h.Wf → h.get? n = some p → I h → I (h.pingSilent env n p)
  assumeIdle : ∀ h n p, h.Wf → (∃ q, h.get? n = some q ∧ q.Same p ∧ q.state = p.state ∧
    q.busySince = p.busySince) → p.isObserver = false → I h → I (h.assumeIdle env n p)
  notifyBlocked : ∀ h n, h.Wf → I h → I (h.notifyBlocked env n)
  fail : ∀ h c, h.Wf → I h → I (h.setWire
    { h.wire with
      clients := Function.update h.wire.clients c { h.wire.clients c with connected := false } })

section
variable {env : Env} {A : Filter} {I : Hub → Prop} {h : Hub}

theorem Handled.handles (hI : Handled env A I) : Handles env A I :=
  { hI with }

/-- A well-formed hub of which `I` holds. -/
def Sound (I : Hub → Prop) (h : Hub) : Prop := h.Wf ∧ I h

theorem Handles.settle (hI : Handles env A I) (hs : Sound I h) {n : Str} {p : Participant}
    (hp : h.get? n = some p) {f : Say} (hA : A n p.kind (.say f)) (accepted : Bool) :
    I (h.settle env n f accepted) := by
  have hinfer : Sound I (h.inferIdle env n) :=
    ⟨hs.1.keeps (keeps_inferIdle env hs.1.named n), hI.inferIdle h n p f hs.1 hp hA hs.2⟩
  unfold Hub.settle
  simp only
  split
  · exact hinfer.2
  · next p hp =>
    split
    · next hagent =>
      split
      · exact hI.markDone _ n p hinfer.1 hp hagent.2 hinfer.2
      · exact hI.goOn _ n p hinfer.1 hp hagent.2 hinfer.2
    · exact hinfer.2

theorem Handles.handleSay (hI : Handles env A I) (hs : Sound I h) {n : Str} {p : Participant}
    (hp : h.get? n = some p) {f : Say} (hA : A n p.kind (.say f)) : I (h.handleSay env n f) := by
  have hroster := roster_routeSay env hs.1.named n f
  obtain ⟨p', hp', hsame⟩ := hroster.same n p hp
  exact hI.settle ⟨hs.1.roster hroster, hI.routeSay h n p f hs.1 hp hA hs.2⟩ hp'
    (by rw [hsame.kind]; exact hA) _

/-- The frame of the client `c` meets the condition. -/
def Meets (A : Filter) (h : Hub) (c : ClientId) : Inbound → Prop
  | .hello f => A f.name f.kind (.hello f)
  | f => ∀ p, h.get? (h.wire.clients c).name = some p → A (h.wire.clients c).name p.kind f

theorem Handles.dispatch (hI : Handles env A I) (hs : Sound I h) (c : ClientId) {f : Inbound}
    (hf : ∀ g, f ≠ .hello g) (hA : h.Meets A c f) : I (h.dispatch env c f) := by
  have hlife : Sound I (h.lifeSign (h.wire.clients c).name) :=
    ⟨hs.1.keeps (keeps_lifeSign (S := ∅) (T := ∅) (E := True) h _),
      hI.lifeSign h _ hs.1 hs.2⟩
  unfold Hub.dispatch
  simp only
  split
  · exact hI.errRaw h c _ _ _ hs.1 hs.2
  · next p hp =>
    have hp₁ : (h.lifeSign (h.wire.clients c).name).get? (h.wire.clients c).name =
        some { p with lastRx := h.now, awaitingPong := false } := by
      rw [Hub.lifeSign, get?_modify_self, hp]
      rfl
    cases f with
    | hello f => exact absurd rfl (hf f)
    | say f => exact hI.handleSay hlife hp₁ (hA p hp)
    | state f => exact hI.handleState _ _ _ f hlife.1 hp₁ (hA p hp) hlife.2
    | cmd cmd seq => exact hI.handleCmd _ _ _ cmd seq hlife.1 hp₁ (hA p hp) hlife.2
    | roster seq => exact hI.handleRoster _ _ seq hlife.1 hlife.2
    | bye => exact hI.disconnect _ c hlife.1 hlife.2
    | pong => exact hlife.2

theorem Handles.reap (hI : Handles env A I) (hs : Sound I h) (n : Str) : I (h.reap env n) := by
  unfold Hub.reap
  split
  · split
    · exact hs.2
    · exact hI.disconnect h _ hs.1 hs.2
  · exact hs.2

theorem Handles.handleHello (hI : Handles env A I) (hs : Sound I h) (c : ClientId) {f : Hello}
    (hA : A f.name f.kind (.hello f)) : I (h.handleHello env c f) := by
  have hreap : Sound I (h.reap env f.name) := ⟨hs.1.reap env f.name, hI.reap hs f.name⟩
  have hready : Sound I ((h.reap env f.name).declareRoom f) :=
    ⟨hreap.1.keeps (keeps_declareRoom (S := ∅) (T := ∅) (E := True) _ f),
      hI.declareRoom _ f hreap.1 hA hreap.2⟩
  rcases handleHello_cases env h c f with
    ⟨-, detail, heq⟩ | ⟨hname, ⟨p, -, heq⟩ | ⟨hfree, heq⟩⟩
  · rw [heq]
    exact hI.errRaw h c _ _ _ hs.1 hs.2
  · rw [heq]
    exact hI.turnAway _ c f.name hready.1 hready.2
  · rw [heq]
    refine hI.register _ c f hready.1 ?_ hfree hA hready.2
    rw [name_declareRoom, name_reap]
    exact hname

theorem Handles.handleInbound (hI : Handles env A I) (hs : Sound I h) (c : ClientId)
    {f : Inbound} (hA : h.Meets A c f) : I (h.handleInbound env c f) := by
  rcases handleInbound_cases env h c f with ⟨g, rfl, heq⟩ | ⟨hf, heq⟩
  · rw [heq]
    exact hI.handleHello hs c hA
  · rw [heq]
    exact hI.dispatch hs c hf hA

variable (env) in
/-- A ping changes neither the registration nor its state. -/
theorem get?_pingSilent (h : Hub) {n : Str} {p : Participant} (hp : h.get? n = some p) :
    ∃ q, (h.pingSilent env n p).get? n = some q ∧ q.Same p ∧ q.state = p.state ∧
      q.busySince = p.busySince := by
  unfold Hub.pingSilent
  split
  · have hget : (h.modify n fun p =>
        { p with awaitingPong := true, pongDeadline := h.now + env.config.pongTimeout }).get? n =
        some { p with awaitingPong := true, pongDeadline := h.now + env.config.pongTimeout } := by
      rw [get?_modify_self, hp]
      rfl
    exact ⟨_, hget, ⟨rfl, rfl, rfl, rfl, rfl⟩, rfl, rfl⟩
  · exact ⟨p, hp, .refl p, rfl, rfl⟩

theorem Handles.tickOne (hI : Handles env A I) (hs : Sound I h) (n : Str) :
    Sound I (h.tickOne env n) := by
  refine ⟨hs.1.tickOne env n, ?_⟩
  rcases tickOne_cases env h n with ⟨-, heq⟩ | ⟨p, hp, heq | heq | ⟨hobs, heq⟩⟩
  · rw [heq]
    exact hs.2
  · rw [heq]
    exact hI.disconnect h _ hs.1 hs.2
  · rw [heq]
    exact hI.pingSilent h n p hs.1 hp hs.2
  · rw [heq]
    have hping : Sound I (h.pingSilent env n p) :=
      ⟨hs.1.keeps (keeps_pingSilent (S := ∅) (T := ∅) (E := True) env h n p),
        hI.pingSilent h n p hs.1 hp hs.2⟩
    have hidle := hI.assumeIdle _ n p hping.1 (get?_pingSilent env h hp) hobs hping.2
    exact hI.notifyBlocked _ n (hping.1.keeps (keeps_assumeIdle env hping.1.named n p)) hidle

/-- The loop of a tick. -/
theorem Handles.ticks (hI : Handles env A I) (hs : Sound I h) (ns : List Str) :
    Sound I (ns.foldl (Hub.tickOne env) h) :=
  tick_invariant env (I := Sound I) (fun _ n hk => hI.tickOne hk n) hs ns

theorem Handled.watchdogTick (hI : Handled env A I) (hprune : Sound I (h.pruneDead env)) :
    I (h.watchdogTick env) := by
  have hticks := hI.handles.ticks hprune (h.pruneDead env).participants.keys
  refine hI.checkStall _ ?_ (hI.checkQuorum _ hticks.1 hticks.2)
  exact hticks.1.keeps (keeps_checkQuorum (S := ∅) (T := ∅) (E := True) env _)

variable {F : Type} [PyJson.PyFloat F]

variable (env) in
/-- If the operation is a frame that passes validation, it meets the condition. -/
def Allowed (A : Filter) (h : Hub) (op : Op F) : Prop :=
  ∀ c frame f, op = .handle c frame → validate env.isPrintable frame = .ok f → h.Meets A c f

theorem allowed_any (h : Hub) (op : Op F) : Allowed env anyFrame h op := by
  intro c frame f _ _
  cases f with
  | hello g => trivial
  | _ => exact fun _ _ => trivial

/-- What the handlers preserve, an operation preserves that is neither a tick nor a reading of the
clock. -/
theorem Handles.step (hI : Handles env A I) (hw : h.Wf) (hh : I h) {op : Op F}
    (hA : Allowed env A h op) (htick : op ≠ .watchdogTick)
    (hclock : ∀ now wall, op ≠ .clock now wall) : I (h.step env op) := by
  cases op with
  | handle c frame =>
    show I (h.handle env c frame)
    rcases handle_cases env h c frame with ⟨e, -, heq⟩ | ⟨f, hv, heq⟩
    · rw [heq]
      exact hI.errRaw h c _ _ _ hw hh
    · rw [heq]
      exact hI.handleInbound ⟨hw, hh⟩ c (hA c frame f rfl hv)
  | disconnect c => exact hI.disconnect h c hw hh
  | watchdogTick => exact absurd rfl htick
  | clock now wall => exact absurd rfl (hclock now wall)
  | fail c => exact hI.fail h c hw hh

/-- **Step rule.**  What the handlers preserve, every operation preserves, if a reading of the clock
and the expiry of the dead do. -/
theorem Handled.step (hI : Handled env A I) (hw : h.Wf) (hh : I h) {op : Op F}
    (hA : Allowed env A h op) (hprune : op = .watchdogTick → I (h.pruneDead env))
    (hclock : ∀ now wall, op = .clock now wall → I { h with now := now, wall := wall }) :
    I (h.step env op) := by
  cases op with
  | watchdogTick => exact hI.watchdogTick ⟨hw.pruneDead env, hprune rfl⟩
  | clock now wall => exact hclock now wall rfl
  | _ => exact hI.handles.step hw hh hA (by simp) (by simp)

/-- **Run rule.** -/
theorem Handled.run (hI : Handled env A I) (hprune : ∀ h, h.Wf → I h → I (h.pruneDead env))
    (hclock : ∀ h now wall, I h → I { h with now := now, wall := wall }) (hw : h.Wf) (hh : I h)
    {ops : List (Op F)} (hA : Run.Always (Hub.step env) (Allowed env A) h ops) :
    I (Run.after (Hub.step env) h ops) :=
  (Run.invariant (I := Sound I)
    (fun k op hs hop => ⟨hs.1.step env op,
      hI.step hs.1 hs.2 hop (fun _ => hprune k hs.1 hs.2) fun now wall _ => hclock k now wall hs.2⟩) ⟨hw, hh⟩ hA).2

theorem Handled.everyRun (hI : Handled env anyFrame I)
    (hprune : ∀ h, h.Wf → I h → I (h.pruneDead env))
    (hclock : ∀ h now wall, I h → I { h with now := now, wall := wall }) (hw : h.Wf) (hh : I h)
    (ops : List (Op F)) : I (Run.after (Hub.step env) h ops) :=
  (Run.preserved (I := Sound I)
    (fun k op hs => ⟨hs.1.step env op,
      hI.step hs.1 hs.2 (allowed_any k op) (fun _ => hprune k hs.1 hs.2) fun now wall _ =>
        hclock k now wall hs.2⟩) ⟨hw, hh⟩ ops).2

/-! ## Hellos that register -/

/-- The hello registers its client: it has no name, and the name is free or its client gone. -/
def Admits (h : Hub) (c : ClientId) (f : Hello) : Prop :=
  (h.wire.clients c).name = [] ∧ ∀ p, h.get? f.name = some p → h.up p.client = false

variable (env) in
/-- A frame that passes validation meets the condition; a hello only has to if it registers. -/
def Admitted (A : Filter) (h : Hub) (op : Op F) : Prop :=
  ∀ c frame f, op = .handle c frame → validate env.isPrintable frame = .ok f →
    match f with
    | .hello g => h.Admits c g → A g.name g.kind (.hello g)
    | f => h.Meets A c f

theorem admits_of_free {c : ClientId} {f : Hello} (hname : (h.wire.clients c).name = [])
    (hfree : ((h.reap env f.name).declareRoom f).get? f.name = none) : h.Admits c f := by
  refine ⟨hname, fun p hp => ?_⟩
  by_contra hup
  have hreap : h.reap env f.name = h := by
    rw [Hub.reap, hp]
    simp only [if_pos (show h.up p.client = true by simpa using hup)]
  have hroom : Keeps ∅ ∅ True h (h.declareRoom f) := keeps_declareRoom h f
  rw [hreap] at hfree
  obtain ⟨q, hq, -⟩ := hroom.same f.name p hp
  rw [hfree] at hq
  cases hq

variable (env) in
/-- The operation is a hello of the client `c` that passes validation. -/
def SaysHello (op : Op F) (c : ClientId) (g : Hello) : Prop :=
  ∃ frame, op = .handle c frame ∧ validate env.isPrintable frame = .ok (.hello g)

/-- The hub that the registration of a hello finds. -/
structure Vacant (env : Env) (h : Hub) (c : ClientId) (g : Hello) (k : Hub) : Prop where
  ready : k = (h.reap env g.name).declareRoom g
  wf : k.Wf
  name : (k.wire.clients c).name = []
  free : k.get? g.name = none

/-- The step rule for what does not look at the rooms; a hello that registers is seen to apart. -/
theorem Handled.except (hI : Handled env A I) (hroom : ∀ k f, I k → I (k.declareRoom f))
    (hw : h.Wf) (hh : I h) {op : Op F}
    (hA : ∀ c frame f, op = .handle c frame → validate env.isPrintable frame = .ok f →
      (∀ g, f ≠ .hello g) → h.Meets A c f)
    (hregister : ∀ c g, SaysHello env op c g → h.Admits c g → ∀ k, Vacant env h c g k → I k →
      I (k.register env c g))
    (hprune : op = .watchdogTick → I (h.pruneDead env))
    (hclock : ∀ now wall, op = .clock now wall → I { h with now := now, wall := wall }) :
    I (h.step env op) := by
  by_cases hhello : ∃ c g, SaysHello env op c g
  · obtain ⟨c, g, frame, rfl, hv⟩ := hhello
    have hstep : h.step env (.handle c frame) = h.handleHello env c g := by
      show h.handle env c frame = _
      rw [Hub.handle, hv]
      rfl
    have hreap : Sound I (h.reap env g.name) :=
      ⟨hw.reap env g.name, hI.handles.reap ⟨hw, hh⟩ g.name⟩
    have hready : Sound I ((h.reap env g.name).declareRoom g) :=
      ⟨hreap.1.keeps (keeps_declareRoom (S := ∅) (T := ∅) (E := True) _ g), hroom _ g hreap.2⟩
    rw [hstep]
    rcases handleHello_cases env h c g with
      ⟨-, detail, heq⟩ | ⟨hname, ⟨p, -, heq⟩ | ⟨hfree, heq⟩⟩
    · rw [heq]
      exact hI.errRaw h c _ _ _ hw hh
    · rw [heq]
      exact hI.turnAway _ c g.name hready.1 hready.2
    · rw [heq]
      have hname' : (((h.reap env g.name).declareRoom g).wire.clients c).name = [] := by
        rw [name_declareRoom, name_reap]
        exact hname
      exact hregister c g ⟨frame, rfl, hv⟩ (admits_of_free hname hfree) _
        ⟨rfl, hready.1, hname', hfree⟩ hready.2
  · refine hI.step hw hh (fun c frame f heq hv => ?_) hprune hclock
    exact hA c frame f heq hv fun g hg => hhello ⟨c, g, frame, heq, by rw [← hg]; exact hv⟩

/-- The step rule, for what does not look at the rooms. -/
theorem Handled.admitted (hI : Handled env A I) (hroom : ∀ k f, I k → I (k.declareRoom f))
    (hw : h.Wf) (hh : I h) {op : Op F} (hA : Admitted env A h op)
    (hprune : op = .watchdogTick → I (h.pruneDead env))
    (hclock : ∀ now wall, op = .clock now wall → I { h with now := now, wall := wall }) :
    I (h.step env op) := by
  refine hI.except hroom hw hh (fun c frame f heq hv hf => ?_) ?_ hprune hclock
  · have hmeets := hA c frame f heq hv
    cases f with
    | hello g => exact absurd rfl (hf g)
    | _ => exact hmeets
  · rintro c g ⟨frame, heq, hv⟩ hadmits k hk hIk
    exact hI.register k c g hk.wf hk.name hk.free (hA c frame _ heq hv hadmits) hIk

/-! ## What depends on the roster alone -/

variable (env) in
/-- What every step that keeps the registry, every end of a connection and every join preserve. -/
theorem handled_of_ends (hkeep : ∀ h h' : Hub, h.Wf → h.Roster h' → I h → I h')
    (hend : ∀ (h : Hub) c, h.Wf → I h → I (h.disconnect env c))
    (henroll : ∀ (h : Hub) c (f : Hello), h.Wf → (h.wire.clients c).name = [] →
      h.get? f.name = none → A f.name f.kind (.hello f) →
      I h → I (h.enroll c f.name (admitted env h c f))) : Handled env A I := by
  have hk : ∀ {h h' : Hub}, h.Wf → Keeps Set.univ Set.univ True h h' → I h → I h' :=
    fun hw hk => hkeep _ _ hw hk.toRoster
  have hroster : ∀ {S T : Set Str} {h h' : Hub}, Keeps S T True h h' →
      Keeps Set.univ Set.univ True h h' := fun hk =>
    hk.mono (Set.subset_univ _) (Set.subset_univ _)
  constructor
  case errRaw => exact fun h c _ _ _ hw => hk hw (quiet_errRaw env h c _ _ _).keeps
  case lifeSign => exact fun h n hw => hk hw (keeps_lifeSign h n)
  case routeSay => exact fun h n _ f hw _ _ => hkeep _ _ hw (roster_routeSay env hw.named n f)
  case inferIdle =>
    exact fun h n _ _ hw _ _ => hk hw (hroster (keeps_inferIdle env hw.named n))
  case markDone => exact fun h n _ hw _ _ => hk hw (keeps_markDone env h n)
  case goOn => exact fun h n _ hw _ _ => hk hw (keeps_setFinished h n false)
  case handleState =>
    exact fun h n _ f hw _ _ => hk hw (hroster (keeps_handleState env hw.named n f))
  case handleCmd => exact fun h n _ c seq hw _ _ => hk hw (keeps_handleCmd env hw.named n c seq)
  case handleRoster => exact fun h n seq hw => hk hw (quiet_handleRoster env h n seq).keeps
  case disconnect => exact hend
  case declareRoom => exact fun h f hw _ => hk hw (keeps_declareRoom h f)
  case turnAway => exact fun h c n hw => hk hw (keeps_turnAway env h c n)
  case register =>
    intro h c f hw hname hfree hA hh
    have hwf := hw.enroll hname (admitted_name env hw c f) (nameRe_ne_nil f.name_ok.2)
      (admitted_client env h c f)
    exact hk hwf (hroster (keeps_register env hw hname f)) (henroll h c f hw hname hfree hA hh)
  case pingSilent => exact fun h n p hw _ => hk hw (keeps_pingSilent env h n p)
  case assumeIdle => exact fun h n p hw _ _ => hk hw (hroster (keeps_assumeIdle env hw.named n p))
  case notifyBlocked => exact fun h n hw => hk hw (keeps_notifyBlocked env h n)
  case checkQuorum => exact fun h hw => hk hw (keeps_checkQuorum env h)
  case checkStall => exact fun h hw => hk hw (keeps_checkStall env h)
  case fail => exact fun h c hw => hk hw (keeps_fail h c)

variable (env) in
/-- What every step that keeps the registry, every leave and every join preserve. -/
theorem handled_of_roster (hkeep : ∀ h h' : Hub, h.Wf → h.Roster h' → I h → I h')
    (hleave : ∀ (h : Hub) n p, h.Wf → h.get? n = some p → I h → I (h.leave env n p))
    (henroll : ∀ (h : Hub) c (f : Hello), h.Wf → h.get? f.name = none → A f.name f.kind (.hello f) →
      I h → I (h.enroll c f.name (admitted env h c f))) : Handled env A I := by
  apply handled_of_ends env hkeep
  · intro h c hw hh
    rcases disconnect_cases env h c with ⟨p, hp, -, heq⟩ | ⟨-, heq⟩
    · rw [heq]
      have hdone : Keeps Set.univ Set.univ True (h.leave env (h.wire.clients c).name p)
        ((h.leave env (h.wire.clients c).name p).checkSessionDone env) :=
        keeps_checkSessionDone env _
      exact hkeep _ _ (hw.leave env hp) (hdone.trans (keeps_close _ c)).toRoster
        (hleave h _ p hw hp hh)
    · rw [heq]
      exact hkeep _ _ hw (keeps_close (S := ∅) (T := ∅) (E := True) h c).toRoster hh
  · exact fun h c f hw _ hfree hA hh => henroll h c f hw hfree hA hh

/-- Time passes with the clock alone. -/
theorem now_step (hw : h.Wf) {op : Op F} (hop : ∀ now wall, op ≠ .clock now wall) :
    (h.step env op).now = h.now := by
  have hI : Handled env anyFrame fun k => k.now = h.now :=
    handled_of_roster env (fun _ _ _ hr hk => hr.now.trans hk) (fun _ _ _ _ _ hk => hk)
      fun _ _ _ _ _ _ hk => hk
  exact hI.step hw rfl (allowed_any h op) (fun _ => rfl) fun now wall heq =>
    absurd heq (hop now wall)

/-- Nothing is taken back. -/
theorem log_run (hw : h.Wf) (ops : List (Op F)) :
    h.wire.log <+: (Run.after (Hub.step env) h ops).wire.log := by
  have hI : Handled env anyFrame fun k => h.wire.log <+: k.wire.log :=
    handled_of_roster env (fun _ _ _ hr hk => hk.trans hr.wire.log)
      (fun k n p _ _ hk => hk.trans (le_leave env k n p).log) fun _ _ _ _ _ _ hk => hk
  exact hI.everyRun (fun _ _ hk => hk) (fun _ _ _ hk => hk) hw (List.prefix_refl _) ops

end

end Hub

end Moot
