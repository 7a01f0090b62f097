import Moot.Lib.Ghost
import Moot.Stream

/-!
# The says of a stream

A `_forward_say` takes a number under the lock and waits in a slot of its own; the
reader hands it what the hub sends under that number, or fails it when the connection
ends.  The numbers outlive the connections.

Proved here: `say_gets_its_answer`.  Whatever the order of the steps, a say gets back its own
answer or none, no number stays behind, and none waits past the end of its connection;
`say_returns`, each returns once.
-/

namespace Moot

namespace Stream

variable {Φ : Type}

/-- What has been given out and what has come in: the number and the connection of each
`_forward_say`, none if it was refused; the answers, with the connection and the number. -/
structure Past (Φ : Type) where
  tickets : List (Option (Nat × ConnId)) := []
  answers : List (ConnId × Nat × Φ) := []

/-- The past, with one step more. -/
def writePast (g : Past Φ) (s : Stream Φ) : Event Φ → Past Φ
  | .register _ =>
    { g with
      tickets := g.tickets ++ [if s.closed || !s.live then none else some (s.seq + 1, s.conn)] }
  | .receive (.answer seq frame) _ =>
    match s.reader with
    | .pumping c => { g with answers := g.answers ++ [(c, seq, frame)] }
    | _ => g
  | _ => g

/-- The hub answers a say on the connection that brought it, by its number and at most once. -/
def Answers (x : Past Φ × Stream Φ) : Event Φ → Prop
  | .receive (.answer seq _) _ => ∀ c, x.2.reader = .pumping c →
      (∃ frame, Out.say seq frame ∈ x.2.sent c) ∧ ∀ frame, (c, seq, frame) ∉ x.1.answers
  | _ => True

/-! ## The invariant -/

/-- The reader has yet to read, or to fail, what was sent under the number. -/
def Reader.tends (seq : Nat) : Reader Φ → Bool
  | .pumping _ | .handing .. | .ended _ | .dark _ => true
  | .failing slots _ => slots.contains seq
  | _ => false

/-- The reader is at this connection. -/
def Reader.serves : Reader Φ → Option ConnId
  | .pumping c | .handing c .. => some c
  | _ => none

/-- Somebody sees to it that the say does not wait in vain: there is a reply in its slot, or its
connection is the current one and the reader tends it. -/
def Tended (s : Stream Φ) (seq : Nat) (c : ConnId) : Prop :=
  s.slots seq ≠ [] ∨ c = s.conn ∧ s.reader.tends seq = true

/-- A frame that is returned is the answer to the say. -/
def Own (g : Past Φ) (s : Stream Φ) (frame : Φ) (seq : Nat) (c : ConnId) (reply : Reply Φ) : Prop :=
  ∀ a, reply = .hub a → Out.say seq frame ∈ s.sent c ∧ (c, seq, a) ∈ g.answers

/-- Where a `_forward_say` stands, with what it was given. -/
inductive Standing (g : Past Φ) (s : Stream Φ) (frame : Φ) : CallAt Φ → Option (Nat × ConnId) → Prop
  | refused : Standing g s frame (.returned .hubUnreachable) none
  | sending (seq : Nat) (c : ConnId) (pending : seq ∈ s.pending) (tended : s.Tended seq c)
      (unsent : ∀ d f, Out.say seq f ∉ s.sent d) : Standing g s frame (.sending seq c) (some (seq, c))
  | waiting (seq : Nat) (c : ConnId) (pending : seq ∈ s.pending) (tended : s.Tended seq c)
      (sent : Out.say seq frame ∈ s.sent c) : Standing g s frame (.waiting seq) (some (seq, c))
  | leaving (seq : Nat) (c : ConnId) (reply : Reply Φ) (own : Own g s frame seq c reply) :
      Standing g s frame (.leaving seq reply) (some (seq, c))
  | returned (seq : Nat) (c : ConnId) (reply : Reply Φ) (gone : seq ∉ s.pending)
      (own : Own g s frame seq c reply) : Standing g s frame (.returned reply) (some (seq, c))

/-- Every say has a number of its own, every frame in a slot is an answer, and every
`_forward_say` stands where it should. -/
structure Says (g : Past Φ) (s : Stream Φ) : Prop where
  lit : s.live = true → s.reader.lit = true
  serving : ∀ c, s.reader.serves = some c → c = s.conn
  length : g.tickets.length = s.calls.length
  calls : ∀ (i : Nat) (call : Call Φ) t, s.calls[i]? = some call → g.tickets[i]? = some t →
    Standing g s call.frame call.pos t
  distinct : ∀ (i j seq : Nat) (c d : ConnId), g.tickets[i]? = some (some (seq, c)) →
    g.tickets[j]? = some (some (seq, d)) → i = j
  numbered : ∀ (i seq : Nat) (c : ConnId), g.tickets[i]? = some (some (seq, c)) → seq ≤ s.seq
  pendingLe : ∀ seq ∈ s.pending, seq ≤ s.seq
  pendingNodup : s.pending.Nodup
  said : ∀ c seq f, Out.say seq f ∈ s.sent c →
    ∃ (i : Nat) (call : Call Φ), s.calls[i]? = some call ∧ g.tickets[i]? = some (some (seq, c)) ∧
      call.frame = f
  slots : ∀ seq a, Reply.hub a ∈ s.slots seq → ∃ c, (c, seq, a) ∈ g.answers
  handing : ∀ c seq a, s.reader = .handing c seq a → (c, seq, a) ∈ g.answers
  answered : ∀ c seq a, (c, seq, a) ∈ g.answers → ∃ f, Out.say seq f ∈ s.sent c
  once : ∀ c seq a b, (c, seq, a) ∈ g.answers → (c, seq, b) ∈ g.answers → a = b

theorem Says.initial : Says ({} : Past Φ) ({} : Stream Φ) where
  lit := fun _ => rfl
  serving := fun c hc => (Option.some.inj hc).symm
  length := rfl
  calls := fun i call t hi => by simp at hi
  distinct := fun i j seq c d hi => by simp at hi
  numbered := fun i seq c hi => by simp at hi
  pendingLe := fun seq hmem => by simp at hmem
  pendingNodup := List.nodup_nil
  said := fun c seq f hmem => by simp at hmem
  slots := fun seq a hmem => by simp at hmem
  handing := fun c seq a hr => by cases hr
  answered := fun c seq a hmem => by simp at hmem
  once := fun c seq a b hmem => by simp at hmem

section
variable {g g' : Past Φ} {s s' : Stream Φ} {frame : Φ}

theorem Own.mono {seq : Nat} {c : ConnId} {reply : Reply Φ} (ho : Own g s frame seq c reply)
    (hsent : ∀ f, Out.say seq f ∈ s.sent c → Out.say seq f ∈ s'.sent c)
    (hanswers : ∀ a ∈ g.answers, a ∈ g'.answers) : Own g' s' frame seq c reply :=
  fun a ha => ⟨hsent _ (ho a ha).1, hanswers _ (ho a ha).2⟩

/-- What a step of another thread leaves alone. -/
theorem Standing.mono {pos : CallAt Φ} {t : Option (Nat × ConnId)} (hs : Standing g s frame pos t)
    (hpending : ∀ seq c, t = some (seq, c) → (seq ∈ s'.pending ↔ seq ∈ s.pending))
    (htended : ∀ seq c, t = some (seq, c) → seq ∈ s.pending → s.Tended seq c → s'.Tended seq c)
    (hsent : ∀ seq c, t = some (seq, c) → ∀ d f, Out.say seq f ∈ s'.sent d ↔ Out.say seq f ∈ s.sent d)
    (hanswers : ∀ a ∈ g.answers, a ∈ g'.answers) : Standing g' s' frame pos t := by
  cases hs with
  | refused => exact .refused
  | sending seq c pending tended unsent =>
    exact .sending seq c ((hpending seq c rfl).mpr pending) (htended seq c rfl pending tended)
      fun d f hmem => unsent d f ((hsent seq c rfl d f).mp hmem)
  | waiting seq c pending tended sent =>
    exact .waiting seq c ((hpending seq c rfl).mpr pending) (htended seq c rfl pending tended)
      ((hsent seq c rfl c frame).mpr sent)
  | leaving seq c reply own =>
    exact .leaving seq c reply (own.mono (fun f => (hsent seq c rfl c f).mpr) hanswers)
  | returned seq c reply gone own =>
    exact .returned seq c reply (fun hmem => gone ((hpending seq c rfl).mp hmem))
      (own.mono (fun f => (hsent seq c rfl c f).mpr) hanswers)

/-- A step that neither gives out a number nor moves a `_forward_say`. -/
theorem Says.move (h : Says g s) (hcalls : s'.calls = s.calls) (hseq : s'.seq = s.seq)
    (hpending : s'.pending = s.pending) (htickets : g'.tickets = g.tickets)
    (hsent : ∀ seq d f, Out.say seq f ∈ s'.sent d ↔ Out.say seq f ∈ s.sent d)
    (hlit : s'.live = true → s'.reader.lit = true)
    (hserving : ∀ c, s'.reader.serves = some c → c = s'.conn)
    (htended : ∀ seq c, seq ∈ s.pending → s.Tended seq c → s'.Tended seq c)
    (hslots : ∀ seq a, Reply.hub a ∈ s'.slots seq → ∃ c, (c, seq, a) ∈ g'.answers)
    (hhanding : ∀ c seq a, s'.reader = .handing c seq a → (c, seq, a) ∈ g'.answers)
    (hanswers : ∀ a ∈ g.answers, a ∈ g'.answers)
    (hanswered : ∀ c seq a, (c, seq, a) ∈ g'.answers → ∃ f, Out.say seq f ∈ s.sent c)
    (honce : ∀ c seq a b, (c, seq, a) ∈ g'.answers → (c, seq, b) ∈ g'.answers → a = b) :
    Says g' s' where
  lit := hlit
  serving := hserving
  length := by rw [htickets, hcalls, h.length]
  calls := fun i call t hi ht => by
    rw [hcalls] at hi
    rw [htickets] at ht
    exact (h.calls i call t hi ht).mono (fun _ _ _ => by rw [hpending])
      (fun seq c _ => htended seq c) (fun seq _ _ => hsent seq) hanswers
  distinct := by rw [htickets]; exact h.distinct
  numbered := by rw [htickets, hseq]; exact h.numbered
  pendingLe := by rw [hpending, hseq]; exact h.pendingLe
  pendingNodup := by rw [hpending]; exact h.pendingNodup
  said := fun c seq f hmem => by
    rw [hcalls, htickets]
    exact h.said c seq f ((hsent seq c f).mp hmem)
  slots := hslots
  handing := hhanding
  answered := fun c seq a hmem => by
    obtain ⟨f, hf⟩ := hanswered c seq a hmem
    exact ⟨f, (hsent seq c f).mpr hf⟩
  once := honce

/-- A step of the reader that brings nothing in and hands nothing out. -/
theorem Says.read (h : Says g s) (hcalls : s'.calls = s.calls) (hseq : s'.seq = s.seq)
    (hpending : s'.pending = s.pending) (hslots : s'.slots = s.slots)
    (hsent : ∀ seq d f, Out.say seq f ∈ s'.sent d ↔ Out.say seq f ∈ s.sent d)
    (hlit : s'.live = true → s'.reader.lit = true)
    (hserving : ∀ c, s'.reader.serves = some c → c = s'.conn)
    (hhanding : ∀ c seq a, s'.reader = .handing c seq a → (c, seq, a) ∈ g.answers)
    (htends : ∀ seq ∈ s.pending, s.reader.tends seq = true →
      s'.conn = s.conn ∧ s'.reader.tends seq = true) : Says g s' :=
  h.move hcalls hseq hpending rfl hsent hlit hserving
    (fun seq c hmem ht => by
      rw [Tended, hslots]
      refine ht.imp id fun hboth => ?_
      obtain ⟨hconn, htends⟩ := htends seq hmem hboth.2
      exact ⟨hboth.1.trans hconn.symm, htends⟩)
    (by rw [hslots]; exact h.slots) hhanding (fun _ ha => ha) h.answered h.once

/-! ## The reader -/

theorem say_mem_send (s : Stream Φ) (c : ConnId) {out : Out Φ} (hout : ∀ seq f, out ≠ .say seq f)
    (seq : Nat) (d : ConnId) (f : Φ) :
    Out.say seq f ∈ (s.send c out).sent d ↔ Out.say seq f ∈ s.sent d := by
  show Out.say seq f ∈ Function.update s.sent c (s.sent c ++ [out]) d ↔ _
  by_cases hd : d = c
  · subst hd
    rw [Function.update_self, List.mem_append, List.mem_singleton]
    exact or_iff_left fun heq => hout seq f heq.symm
  · rw [Function.update_of_ne hd]

/-- A frame that is no say goes out. -/
theorem Says.send (h : Says g s) (c : ConnId) {out : Out Φ} (hout : ∀ seq f, out ≠ .say seq f) :
    Says g (s.send c out) :=
  h.read rfl rfl rfl rfl (say_mem_send s c hout) h.lit h.serving h.handing fun _ _ ht => ⟨rfl, ht⟩

/-- The reader moves on. -/
theorem Says.turn (h : Says g s) (reader : Reader Φ) (hlit : s.live = true → reader.lit = true)
    (hserving : ∀ c, reader.serves = some c → c = s.conn)
    (hhanding : ∀ c seq a, reader = .handing c seq a → (c, seq, a) ∈ g.answers)
    (htends : ∀ seq ∈ s.pending, s.reader.tends seq = true → reader.tends seq = true) :
    Says g { s with reader := reader } :=
  h.read rfl rfl rfl rfl (fun _ _ _ => Iff.rfl) hlit hserving hhanding
    fun seq hmem ht => ⟨rfl, htends seq hmem ht⟩

theorem Says.receive (h : Says g s) (x : In Φ) (ok : Bool) (hx : Answers (g, s) (.receive x ok)) :
    Says (writePast g s (.receive x ok)) (s.receive x ok) := by
  cases hr : s.reader with
  | pumping c =>
    have hconn : c = s.conn := h.serving c (by rw [hr]; rfl)
    have hend : ∀ g', Says g' s → Says g' { s with reader := .ended true } := by
      intro g' h'
      refine h'.turn _ (fun _ => rfl) ?_ ?_ fun _ _ _ => rfl
      · rintro d ⟨⟩
      · rintro d seq a ⟨⟩
    cases x with
    | ping =>
      rw [Stream.receive, hr]
      simp only
      split
      · exact h.send c (by simp)
      · exact hend _ h
    | other frame =>
      rw [Stream.receive, hr]
      simp only
      split
      · exact h
      · exact hend _ h
    | answer seq frame =>
      obtain ⟨⟨f, hf⟩, hnew⟩ := hx c hr
      have hwrite : writePast g s (.receive (.answer seq frame) ok) =
          { g with answers := g.answers ++ [(c, seq, frame)] } := by rw [writePast, hr]
      have hmem : ∀ d k a, (d, k, a) ∈ g.answers ++ [(c, seq, frame)] ↔
          (d, k, a) ∈ g.answers ∨ d = c ∧ k = seq ∧ a = frame := by
        intro d k a
        rw [List.mem_append, List.mem_singleton, Prod.mk.injEq, Prod.mk.injEq]
      have hanswered : Says { g with answers := g.answers ++ [(c, seq, frame)] } s := by
        refine h.move rfl rfl rfl rfl (fun _ _ _ => Iff.rfl) h.lit h.serving (fun _ _ _ ht => ht)
          (fun k a ha => ?_) (fun d k a ha => ?_) (fun _ ha => List.mem_append_left _ ha)
          (fun d k a ha => ?_) fun d k a b ha hb => ?_
        · obtain ⟨d, hd⟩ := h.slots k a ha
          exact ⟨d, List.mem_append_left _ hd⟩
        · exact List.mem_append_left _ (h.handing d k a ha)
        · rcases (hmem d k a).mp ha with ha | ⟨rfl, rfl, -⟩
          · exact h.answered d k a ha
          · exact ⟨f, hf⟩
        · rcases (hmem d k a).mp ha with hold | ⟨rfl, rfl, rfl⟩
          · rcases (hmem d k b).mp hb with hold' | ⟨rfl, rfl, rfl⟩
            · exact h.once d k a b hold hold'
            · exact absurd hold (hnew a)
          · rcases (hmem _ _ b).mp hb with hold | ⟨-, -, rfl⟩
            · exact absurd hold (hnew b)
            · rfl
      rw [hwrite, Stream.receive, hr]
      simp only
      split_ifs
      · refine hanswered.turn _ (fun _ => rfl) ?_ ?_ fun _ _ _ => rfl
        · rintro d ⟨⟩
          exact hconn
        · rintro d k a ⟨⟩
          exact (hmem _ _ _).mpr (Or.inr ⟨rfl, rfl, rfl⟩)
      · exact hanswered
      · exact hend _ hanswered
  | _ =>
    have hwrite : writePast g s (.receive x ok) = g := by
      cases x <;> first | rfl | rw [writePast, hr]
    rw [hwrite, Stream.receive, hr]
    exact h

/-- A reply is put into a slot. -/
theorem Says.put (h : Says g s) (seq : Nat) (reply : Reply Φ)
    (hreply : ∀ a, reply = .hub a → ∃ c, (c, seq, a) ∈ g.answers) : Says g (s.put seq reply) := by
  refine h.move rfl rfl rfl rfl (fun _ _ _ => Iff.rfl) h.lit h.serving (fun k c _ ht => ?_)
    (fun k a ha => ?_) h.handing (fun _ ha => ha) h.answered h.once
  · refine ht.imp (fun hslot => ?_) id
    rw [Stream.put]
    by_cases hk : k = seq
    · subst hk
      simp
    · simpa [Function.update_of_ne hk] using hslot
  · have ha : Reply.hub a ∈ Function.update s.slots seq (s.slots seq ++ [reply]) k := ha
    by_cases hk : k = seq
    · subst hk
      rw [Function.update_self, List.mem_append, List.mem_singleton] at ha
      exact ha.elim (h.slots k a) fun heq => hreply a heq.symm
    · rw [Function.update_of_ne hk] at ha
      exact h.slots k a ha

theorem tended_put (s : Stream Φ) (seq : Nat) (reply : Reply Φ) : (s.put seq reply).slots seq ≠ [] := by
  simp [Stream.put]

theorem Says.hand (h : Says g s) : Says g s.hand := by
  unfold Stream.hand
  split
  · next c seq frame hr =>
    have hput := h.put seq (.hub frame) fun a ha => by
      obtain rfl := Reply.hub.inj ha
      exact ⟨c, h.handing c seq _ hr⟩
    refine hput.turn _ (fun _ => rfl) ?_ ?_ fun _ _ _ => rfl
    · rintro d ⟨⟩
      exact h.serving c (by rw [hr]; rfl)
    · rintro d k a ⟨⟩
  · exact h

/-- The reader moves on where `live` has been cleared. -/
theorem Says.turnDark (h : Says g s) (hdark : s.reader.lit = false) (reader : Reader Φ)
    (hserving : reader.serves = none)
    (htends : ∀ seq ∈ s.pending, s.reader.tends seq = true → reader.tends seq = true) :
    Says g { s with reader := reader } := by
  refine h.turn reader (fun hl => ?_) (fun c hc => ?_) (fun c seq a hr => ?_) htends
  · have hlit := h.lit hl
    rw [hdark] at hlit
    cases hlit
  · rw [hserving] at hc
    cases hc
  · rw [hr] at hserving
    cases hserving

theorem Reader.tends_of_lit {reader : Reader Φ} (hlit : reader.lit = true) (seq : Nat) :
    reader.tends seq = true := by
  cases reader <;> first | rfl | cases hlit

/-- The reader moves where it tends no say: by then there is a reply in every slot. -/
theorem Says.away (h : Says g s) (hnone : ∀ seq, s.reader.tends seq = false)
    (hcalls : s'.calls = s.calls) (hseq : s'.seq = s.seq) (hpending : s'.pending = s.pending)
    (hslots : s'.slots = s.slots)
    (hsent : ∀ seq d f, Out.say seq f ∈ s'.sent d ↔ Out.say seq f ∈ s.sent d)
    (hplace : s'.reader.serves = none ∧ (s'.live = true → s.live = true) ∨
      s'.reader = .pumping s'.conn) : Says g s' := by
  refine h.read hcalls hseq hpending hslots hsent (fun hl => ?_) (fun c hc => ?_)
    (fun c seq a hr => ?_) fun seq _ ht => ?_
  · rcases hplace with ⟨-, hold⟩ | hpumping
    · have hlit := Reader.tends_of_lit (h.lit (hold hl)) 0
      rw [hnone] at hlit
      cases hlit
    · rw [hpumping]
      rfl
  · rcases hplace with ⟨hserves, -⟩ | hpumping
    · rw [hserves] at hc
      cases hc
    · rw [hpumping] at hc
      exact (Option.some.inj hc).symm
  · rcases hplace with ⟨hserves, -⟩ | hpumping
    · rw [hr] at hserves
      cases hserves
    · rw [hr] at hpumping
      cases hpumping
  · rw [hnone] at ht
    cases ht

theorem Says.darken (h : Says g s) : Says g s.darken := by
  unfold Stream.darken
  split
  · next crash hr =>
    refine h.read rfl rfl rfl rfl (fun _ _ _ => Iff.rfl) ?_ ?_ ?_ fun _ _ _ => ⟨rfl, rfl⟩
    · rintro ⟨⟩
    · rintro d ⟨⟩
    · rintro d k a ⟨⟩
  · next hr =>
    exact h.away (fun _ => by rw [hr]; rfl) rfl rfl rfl rfl (fun _ _ _ => Iff.rfl)
      (Or.inl ⟨rfl, fun hl => by cases hl⟩)
  · exact h

theorem Says.snapshot (h : Says g s) : Says g s.snapshot := by
  unfold Stream.snapshot
  split
  · next crash hr =>
    exact h.turnDark (by rw [hr]; rfl) _ rfl fun seq hmem _ => List.contains_iff_mem.mpr hmem
  · next hr =>
    exact h.away (fun _ => by rw [hr]; rfl) rfl rfl rfl rfl (fun _ _ _ => Iff.rfl) (Or.inl ⟨rfl, id⟩)
  · exact h

theorem Says.fail (h : Says g s) : Says g s.fail := by
  unfold Stream.fail
  split
  · next seq slots crash hr =>
    have hput := h.put seq .hubUnreachable (by simp)
    have hdark : s.live = true → False := fun hl => by
      have hlit := h.lit hl
      rw [hr] at hlit
      cases hlit
    refine hput.move rfl rfl rfl rfl (fun _ _ _ => Iff.rfl) (fun hl => (hdark hl).elim) ?_
      (fun k c hmem ht => ?_) hput.slots ?_ (fun _ ha => ha) h.answered h.once
    · rintro d ⟨⟩
    · rcases ht with hslot | ⟨hc, htends⟩
      · exact Or.inl hslot
      · have hmem : k = seq ∨ k ∈ slots := by
          have hcontains : s.reader.tends k = true := htends
          rw [hr] at hcontains
          simpa [Reader.tends] using hcontains
        rcases hmem with rfl | hmem
        · exact Or.inl (tended_put s _ _)
        · exact Or.inr ⟨hc, List.contains_iff_mem.mpr hmem⟩
    · rintro d k a ⟨⟩
  · next crash hr =>
    exact h.away (fun _ => by rw [hr]; rfl) rfl rfl rfl rfl (fun _ _ _ => Iff.rfl)
      (Or.inl ⟨by dsimp only; split <;> rfl, id⟩)
  · next seq slots hr =>
    have hput := h.put seq .hubUnreachable (by simp)
    have hnone : ∀ k, (s.put seq .hubUnreachable).reader.tends k = false := fun k => by
      show s.reader.tends k = false
      rw [hr]
      rfl
    exact hput.away hnone rfl rfl rfl rfl (fun _ _ _ => Iff.rfl) (Or.inl ⟨rfl, id⟩)
  · next hr =>
    exact h.away (fun _ => by rw [hr]; rfl) rfl rfl rfl rfl (fun _ _ _ => Iff.rfl) (Or.inl ⟨rfl, id⟩)
  · exact h

/-- The reader adopts a connection: by then there is a reply in every slot. -/
theorem Says.connected (h : Says g s) : Says g s.connected := by
  unfold Stream.connected
  split
  · next hr =>
    exact h.away (fun _ => by rw [hr]; rfl) rfl rfl rfl rfl (fun _ _ _ => Iff.rfl) (Or.inl ⟨rfl, id⟩)
  · exact h

theorem Says.replay (h : Says g s) (ok : Bool) : Says g (s.replay ok) := by
  unfold Stream.replay
  split
  · next hr =>
    exact h.away (fun _ => by rw [hr]; rfl) rfl rfl rfl rfl (fun _ _ _ => Iff.rfl) (Or.inl ⟨rfl, id⟩)
  · next frame hr =>
    split
    · have hsent : ∀ seq d f, Out.say seq f ∈ (s.send s.conn (.state frame)).sent d ↔
          Out.say seq f ∈ s.sent d := say_mem_send s s.conn (by simp)
      exact h.away (fun _ => by rw [hr]; rfl) rfl rfl rfl rfl hsent (Or.inl ⟨rfl, id⟩)
    · exact h.away (fun _ => by rw [hr]; rfl) rfl rfl rfl rfl (fun _ _ _ => Iff.rfl)
        (Or.inl ⟨rfl, id⟩)
  · exact h

/-! ## The says -/

theorem getElem?_concat {α : Type} {l : List α} {a b : α} {i : Nat} (h : (l ++ [a])[i]? = some b) :
    l[i]? = some b ∨ i = l.length ∧ b = a := by
  by_cases hi : i < l.length
  · rw [List.getElem?_append_left hi] at h
    exact Or.inl h
  · rw [List.getElem?_append_right (by omega)] at h
    obtain ⟨hlt, heq⟩ := List.getElem?_eq_some_iff.mp h
    rw [List.length_singleton] at hlt
    exact Or.inr ⟨by omega, by simpa using heq.symm⟩

theorem getElem?_concat_of_some {α : Type} {l : List α} {a b : α} {i : Nat} (h : l[i]? = some b) :
    (l ++ [a])[i]? = some b := by
  obtain ⟨hi, -⟩ := List.getElem?_eq_some_iff.mp h
  rw [List.getElem?_append_left hi]
  exact h

/-- A `_forward_say` that is refused. -/
theorem Says.refuse (h : Says g s) (frame : Φ) :
    Says { g with tickets := g.tickets ++ [none] }
      { s with calls := s.calls ++ [⟨frame, .returned .hubUnreachable⟩] } := by
  have hstay : ∀ {f : Φ} {pos : CallAt Φ} {t : Option (Nat × ConnId)}, Standing g s f pos t →
      Standing { g with tickets := g.tickets ++ [none] }
        { s with calls := s.calls ++ [⟨frame, .returned .hubUnreachable⟩] } f pos t := fun hs =>
    hs.mono (fun _ _ _ => Iff.rfl) (fun _ _ _ _ ht => ht) (fun _ _ _ _ _ => Iff.rfl) fun _ ha => ha
  have hticket : ∀ {i : Nat} {seq : Nat} {c : ConnId},
      (g.tickets ++ [none])[i]? = some (some (seq, c)) → g.tickets[i]? = some (some (seq, c)) := by
    intro i seq c ht
    rcases getElem?_concat ht with ht | ⟨-, hnone⟩
    · exact ht
    · cases hnone
  exact {
    lit := h.lit
    serving := h.serving
    length := by simp [h.length]
    calls := fun i call t hi ht => by
      rcases getElem?_concat hi with hi | ⟨rfl, rfl⟩
      · rcases getElem?_concat ht with ht | ⟨rfl, -⟩
        · exact hstay (h.calls i call t hi ht)
        · rw [List.getElem?_eq_none (by rw [h.length])] at hi
          cases hi
      · rcases getElem?_concat ht with ht | ⟨-, rfl⟩
        · rw [List.getElem?_eq_none (by rw [h.length])] at ht
          cases ht
        · exact .refused
    distinct := fun i j seq c d hi hj => h.distinct i j seq c d (hticket hi) (hticket hj)
    numbered := fun i seq c hi => h.numbered i seq c (hticket hi)
    pendingLe := h.pendingLe
    pendingNodup := h.pendingNodup
    said := fun c seq f hmem => by
      obtain ⟨i, call, hi, ht, hf⟩ := h.said c seq f hmem
      exact ⟨i, call, getElem?_concat_of_some hi, getElem?_concat_of_some ht, hf⟩
    slots := h.slots
    handing := h.handing
    answered := h.answered
    once := h.once }

/-- A `_forward_say` that gets a number: nothing has been sent or put under it. -/
theorem Says.admit (h : Says g s) (hlive : s.live = true) (frame : Φ) :
    Says { g with tickets := g.tickets ++ [some (s.seq + 1, s.conn)] }
      { s with
        seq := s.seq + 1
        pending := s.pending ++ [s.seq + 1]
        calls := s.calls ++ [⟨frame, .sending (s.seq + 1) s.conn⟩] } := by
  have hunsent : ∀ d f, Out.say (s.seq + 1) f ∉ s.sent d := by
    intro d f hmem
    obtain ⟨i, call, -, ht, -⟩ := h.said d _ f hmem
    have hle := h.numbered i _ d ht
    omega
  have hticket : ∀ {i : Nat} {seq : Nat} {c : ConnId},
      (g.tickets ++ [some (s.seq + 1, s.conn)])[i]? = some (some (seq, c)) →
      g.tickets[i]? = some (some (seq, c)) ∧ seq ≤ s.seq ∨ i = s.calls.length ∧ seq = s.seq + 1 := by
    intro i seq c ht
    rcases getElem?_concat ht with ht | ⟨hi, heq⟩
    · exact Or.inl ⟨ht, h.numbered i seq c ht⟩
    · rw [Option.some.injEq, Prod.mk.injEq] at heq
      exact Or.inr ⟨hi.trans h.length, heq.1⟩
  have htends : s.reader.tends (s.seq + 1) = true := by
    have hlit := h.lit hlive
    revert hlit
    cases s.reader <;> simp [Reader.lit, Reader.tends]
  exact {
    lit := h.lit
    serving := h.serving
    length := by simp [h.length]
    calls := fun i call t hi ht => by
      rcases getElem?_concat hi with hi | ⟨rfl, rfl⟩
      · rcases getElem?_concat ht with ht | ⟨rfl, -⟩
        · refine (h.calls i call t hi ht).mono (fun seq c htk => ?_) (fun _ _ _ _ ht => ht)
            (fun _ _ _ _ _ => Iff.rfl) fun _ ha => ha
          have hle := h.numbered i seq c (htk ▸ ht)
          rw [List.mem_append, List.mem_singleton]
          exact or_iff_left (by omega)
        · rw [List.getElem?_eq_none (by rw [h.length])] at hi
          cases hi
      · rcases getElem?_concat ht with ht | ⟨-, rfl⟩
        · rw [List.getElem?_eq_none (by rw [h.length])] at ht
          cases ht
        · exact .sending (s.seq + 1) s.conn (List.mem_append_right _ (List.mem_singleton_self _))
            (Or.inr ⟨rfl, htends⟩) hunsent
    distinct := fun i j seq c d hi hj => by
      rcases hticket hi with ⟨hi, hle⟩ | ⟨rfl, rfl⟩
      · rcases hticket hj with ⟨hj, -⟩ | ⟨rfl, rfl⟩
        · exact h.distinct i j seq c d hi hj
        · omega
      · rcases hticket hj with ⟨-, hle⟩ | ⟨rfl, -⟩
        · omega
        · rfl
    numbered := fun i seq c hi => by
      show seq ≤ s.seq + 1
      rcases hticket hi with ⟨-, hle⟩ | ⟨-, rfl⟩
      · omega
      · exact le_rfl
    pendingLe := fun seq hmem => by
      show seq ≤ s.seq + 1
      rcases List.mem_append.mp hmem with hmem | hmem
      · exact (h.pendingLe seq hmem).trans (Nat.le_succ _)
      · exact (List.mem_singleton.mp hmem).le
    pendingNodup := by
      refine List.nodup_append.mpr ⟨h.pendingNodup, List.nodup_singleton _, fun a ha b hb => ?_⟩
      rw [List.mem_singleton] at hb
      have hle := h.pendingLe a ha
      omega
    said := fun c seq f hmem => by
      obtain ⟨i, call, hi, ht, hf⟩ := h.said c seq f hmem
      exact ⟨i, call, getElem?_concat_of_some hi, getElem?_concat_of_some ht, hf⟩
    slots := h.slots
    handing := h.handing
    answered := h.answered
    once := h.once }

theorem Says.register (h : Says g s) (frame : Φ) :
    Says (writePast g s (.register frame)) (s.register frame) := by
  rw [writePast, Stream.register]
  split
  · exact h.refuse frame
  · next hopen =>
    have hlive : s.live = true := by
      cases hl : s.live with
      | true => rfl
      | false => simp [hl] at hopen
    exact h.admit hlive frame

/-- The ticket of a `_forward_say` that has a number. -/
theorem Says.ticket (h : Says g s) {i : Nat} {call : Call Φ} (hi : s.calls[i]? = some call) :
    ∃ t, g.tickets[i]? = some t ∧ Standing g s call.frame call.pos t := by
  obtain ⟨hlt, -⟩ := List.getElem?_eq_some_iff.mp hi
  rw [← h.length] at hlt
  exact ⟨_, List.getElem?_eq_getElem hlt, h.calls i call _ hi (List.getElem?_eq_getElem hlt)⟩

/-- The `_forward_say` number `seq` moves, and touches only what is its own. -/
theorem Says.advance (h : Says g s) {i seq : Nat} {c : ConnId} {call : Call Φ} {pos : CallAt Φ}
    (hi : s.calls[i]? = some call) (ht : g.tickets[i]? = some (some (seq, c)))
    (hcalls : s'.calls = s.calls.set i ⟨call.frame, pos⟩) (hseq : s'.seq = s.seq)
    (hconn : s'.conn = s.conn) (hlive : s'.live = s.live) (hreader : s'.reader = s.reader)
    (hpos : Standing g s' call.frame pos (some (seq, c)))
    (hpending : s'.pending.Sublist s.pending)
    (hkept : ∀ k, k ≠ seq → k ∈ s.pending → k ∈ s'.pending)
    (hslots : ∀ k, k ≠ seq → s'.slots k = s.slots k)
    (hslot : ∀ a, Reply.hub a ∈ s'.slots seq → Reply.hub a ∈ s.slots seq)
    (hsent : ∀ k d f, k ≠ seq → (Out.say k f ∈ s'.sent d ↔ Out.say k f ∈ s.sent d))
    (hmore : ∀ d f, Out.say seq f ∈ s.sent d → Out.say seq f ∈ s'.sent d)
    (hown : ∀ d f, Out.say seq f ∈ s'.sent d → Out.say seq f ∈ s.sent d ∨ d = c ∧ f = call.frame) :
    Says g s' where
  lit := by rw [hlive, hreader]; exact h.lit
  serving := by rw [hreader, hconn]; exact h.serving
  length := by rw [hcalls, List.length_set, h.length]
  calls := fun j other t hj htj => by
    rw [hcalls, List.getElem?_set] at hj
    split at hj
    · next hij =>
      subst hij
      rw [ht, Option.some.injEq] at htj
      subst htj
      split at hj
      · rw [Option.some.injEq] at hj
        subst hj
        exact hpos
      · cases hj
    · next hij =>
      have hother : ∀ k d, t = some (k, d) → k ≠ seq := by
        rintro k d rfl rfl
        exact hij (h.distinct i j k c d ht htj)
      refine (h.calls j other t hj htj).mono (fun k d hkd => ?_) (fun k d hkd _ htended => ?_)
        (fun k d hkd e f => hsent k e f (hother k d hkd)) fun _ ha => ha
      · exact ⟨fun hmem => hpending.subset hmem, hkept k (hother k d hkd)⟩
      · rw [Tended, hslots k (hother k d hkd), hconn, hreader]
        exact htended
  distinct := h.distinct
  numbered := by rw [hseq]; exact h.numbered
  pendingLe := fun k hmem => by
    rw [hseq]
    exact h.pendingLe k (hpending.subset hmem)
  pendingNodup := h.pendingNodup.sublist hpending
  said := fun d k f hmem => by
    have hsame : ∀ (j : Nat) (other : Call Φ), s.calls[j]? = some other →
        ∃ other', s'.calls[j]? = some other' ∧ other'.frame = other.frame := by
      intro j other hj
      rw [hcalls, List.getElem?_set]
      split
      · next hij =>
        subst hij
        rw [hi, Option.some.injEq] at hj
        obtain ⟨hlt, -⟩ := List.getElem?_eq_some_iff.mp hi
        exact ⟨_, if_pos hlt, by rw [hj]⟩
      · exact ⟨other, hj, rfl⟩
    have hold : Out.say k f ∈ s.sent d ∨ k = seq ∧ d = c ∧ f = call.frame := by
      by_cases hk : k = seq
      · subst hk
        exact (hown d f hmem).imp id fun hboth => ⟨rfl, hboth⟩
      · exact Or.inl ((hsent k d f hk).mp hmem)
    rcases hold with hmem | ⟨rfl, rfl, rfl⟩
    · obtain ⟨j, other, hj, htj, hf⟩ := h.said d k f hmem
      obtain ⟨other', hj', hf'⟩ := hsame j other hj
      exact ⟨j, other', hj', htj, hf'.trans hf⟩
    · obtain ⟨other', hj', hf'⟩ := hsame i call hi
      exact ⟨i, other', hj', ht, hf'⟩
  slots := fun k a hmem => by
    by_cases hk : k = seq
    · subst hk
      exact h.slots k a (hslot a hmem)
    · rw [hslots k hk] at hmem
      exact h.slots k a hmem
  handing := by rw [hreader]; exact h.handing
  answered := fun d k a hmem => by
    obtain ⟨f, hf⟩ := h.answered d k a hmem
    by_cases hk : k = seq
    · subst hk
      exact ⟨f, hmore d f hf⟩
    · exact ⟨f, (hsent k d f hk).mpr hf⟩
  once := h.once

theorem Says.callSend (h : Says g s) (i : Nat) (ok : Bool) : Says g (s.callSend i ok) := by
  unfold Stream.callSend
  split
  · next frame seq c hi =>
    obtain ⟨t, ht, hstanding⟩ := h.ticket hi
    cases hstanding with
    | sending _ _ pending tended unsent =>
      split
      · have hsent : ∀ d, ((s.send c (.say seq frame)).sent d) =
            Function.update s.sent c (s.sent c ++ [.say seq frame]) d := fun _ => rfl
        have hmem : ∀ k d f, Out.say k f ∈ (s.send c (.say seq frame)).sent d ↔
            Out.say k f ∈ s.sent d ∨ d = c ∧ k = seq ∧ f = frame := by
          intro k d f
          rw [hsent]
          by_cases hd : d = c
          · subst hd
            rw [Function.update_self, List.mem_append, List.mem_singleton, Out.say.injEq]
            simp
          · rw [Function.update_of_ne hd]
            simp [hd]
        refine h.advance hi ht rfl rfl rfl rfl rfl (.waiting seq c pending tended ?_)
          (List.Sublist.refl _) (fun _ _ hk => hk) (fun _ _ => rfl) (fun _ ha => ha)
          (fun k d f hk => ?_) (fun d f hf => ?_) fun d f hf => ?_
        · exact (hmem seq c frame).mpr (Or.inr ⟨rfl, rfl, rfl⟩)
        · exact (hmem k d f).trans (or_iff_left fun hboth => hk hboth.2.1)
        · exact (hmem seq d f).mpr (Or.inl hf)
        · exact ((hmem seq d f).mp hf).imp id fun hboth => ⟨hboth.1, hboth.2.2⟩
      · refine h.advance hi ht rfl rfl rfl rfl rfl (.leaving seq c _ ?_) (List.Sublist.refl _)
          (fun _ _ hk => hk) (fun _ _ => rfl) (fun _ ha => ha) (fun _ _ _ _ => Iff.rfl)
          (fun _ _ hf => hf) fun _ _ hf => Or.inl hf
        rintro a ⟨⟩
  · exact h

theorem Says.callRaise (h : Says g s) (i : Nat) : Says g (s.callRaise i) := by
  unfold Stream.callRaise
  split
  · next frame seq c hi =>
    obtain ⟨t, ht, hstanding⟩ := h.ticket hi
    cases hstanding with
    | sending _ _ pending tended unsent =>
      refine h.advance hi ht rfl rfl rfl rfl rfl (.leaving seq c _ ?_) (List.Sublist.refl _)
        (fun _ _ hk => hk) (fun _ _ => rfl) (fun _ ha => ha) (fun _ _ _ _ => Iff.rfl)
        (fun _ _ hf => hf) fun _ _ hf => Or.inl hf
      rintro a ⟨⟩
  · exact h

theorem Says.callGet (h : Says g s) (i : Nat) (expired : Bool) : Says g (s.callGet i expired) := by
  unfold Stream.callGet
  split
  · next frame seq hi =>
    obtain ⟨t, ht, hstanding⟩ := h.ticket hi
    cases hstanding with
    | waiting _ c pending tended sent =>
      split
      · next reply rest hslot =>
        refine h.advance hi ht rfl rfl rfl rfl rfl (.leaving seq c reply ?_) (List.Sublist.refl _)
          (fun _ _ hk => hk) (fun k hk => Function.update_of_ne hk _ _) (fun a ha => ?_)
          (fun _ _ _ _ => Iff.rfl) (fun _ _ hf => hf) fun _ _ hf => Or.inl hf
        · rintro a rfl
          -- the answer was to a say with this number, and only this one has it
          obtain ⟨d, hd⟩ := h.slots seq a (by rw [hslot]; exact List.mem_cons_self ..)
          obtain ⟨f, hf⟩ := h.answered d seq a hd
          obtain ⟨j, other, -, htj, -⟩ := h.said d seq f hf
          obtain rfl := h.distinct i j seq c d ht htj
          rw [ht] at htj
          obtain rfl : c = d := by simpa using htj
          exact ⟨sent, hd⟩
        · have hrest : (Function.update s.slots seq rest) seq = rest := Function.update_self ..
          have ha : Reply.hub a ∈ (Function.update s.slots seq rest) seq := ha
          rw [hrest] at ha
          rw [hslot]
          exact List.mem_cons_of_mem _ ha
      · split
        · refine h.advance hi ht rfl rfl rfl rfl rfl (.leaving seq c _ ?_) (List.Sublist.refl _)
            (fun _ _ hk => hk) (fun _ _ => rfl) (fun _ ha => ha) (fun _ _ _ _ => Iff.rfl)
            (fun _ _ hf => hf) fun _ _ hf => Or.inl hf
          rintro a ⟨⟩
        · exact h
  · exact h

theorem Says.callLeave (h : Says g s) (i : Nat) : Says g (s.callLeave i) := by
  unfold Stream.callLeave
  split
  · next frame seq reply hi =>
    obtain ⟨t, ht, hstanding⟩ := h.ticket hi
    cases hstanding with
    | leaving _ c _ own =>
      refine h.advance hi ht rfl rfl rfl rfl rfl (.returned seq c reply ?_ own) List.erase_sublist
        (fun k hk hmem => ?_) (fun _ _ => rfl) (fun _ ha => ha) (fun _ _ _ _ => Iff.rfl)
        (fun _ _ hf => hf) fun _ _ hf => Or.inl hf
      · exact h.pendingNodup.not_mem_erase
      · exact (List.mem_erase_of_ne hk).mpr hmem
  · exact h

/-! ## Runs -/

/-- A step that has no part in it. -/
theorem Says.aside (h : Says g s) (hcalls : s'.calls = s.calls) (hseq : s'.seq = s.seq)
    (hpending : s'.pending = s.pending) (hslots : s'.slots = s.slots) (hsent : s'.sent = s.sent)
    (hlive : s'.live = s.live) (hreader : s'.reader = s.reader) (hconn : s'.conn = s.conn) :
    Says g s' :=
  h.read hcalls hseq hpending hslots (fun _ _ _ => by rw [hsent]) (by rw [hlive, hreader]; exact h.lit)
    (by rw [hreader, hconn]; exact h.serving) (by rw [hreader]; exact h.handing)
    fun _ _ ht => ⟨hconn, by rw [hreader]; exact ht⟩

theorem Says.relaySend (h : Says g s) (i : Nat) (ok : Bool) : Says g (s.relaySend i ok) := by
  have hdrop : ∀ relays, Says g { s with relays := relays } := fun relays =>
    h.aside rfl rfl rfl rfl rfl rfl rfl rfl
  unfold Stream.relaySend
  split
  · exact h
  · simp only
    split
    · exact hdrop _
    · split
      · exact (hdrop _).send _ (by simp)
      · exact hdrop _

theorem Says.eof (h : Says g s) (crash : Bool) : Says g (s.eof crash) := by
  unfold Stream.eof
  split
  · refine h.turn _ (fun _ => rfl) ?_ ?_ fun _ _ _ => rfl
    · rintro d ⟨⟩
    · rintro d k a ⟨⟩
  · exact h

theorem Says.close (h : Says g s) : Says g s.close := by
  unfold Stream.close
  split
  · next hr =>
    exact h.away (fun _ => by rw [hr]; rfl) rfl rfl rfl rfl (fun _ _ _ => Iff.rfl) (Or.inl ⟨rfl, id⟩)
  · exact h

theorem Says.giveUp (h : Says g s) : Says g s.giveUp := by
  unfold Stream.giveUp
  split
  · next hr =>
    exact h.away (fun _ => by rw [hr]; rfl) rfl rfl rfl rfl (fun _ _ _ => Iff.rfl) (Or.inl ⟨rfl, id⟩)
  · exact h

theorem Says.closeOld (h : Says g s) : Says g s.closeOld := by
  unfold Stream.closeOld
  split
  · next old state hr =>
    exact h.away (fun _ => by rw [hr]; rfl) rfl rfl rfl rfl (fun _ _ _ => Iff.rfl) (Or.inl ⟨rfl, id⟩)
  · exact h

theorem Says.relight (h : Says g s) : Says g s.relight := by
  unfold Stream.relight
  split
  · next state hr =>
    exact h.away (fun _ => by rw [hr]; rfl) rfl rfl rfl rfl (fun _ _ _ => Iff.rfl) (Or.inr rfl)
  · exact h

theorem Says.step (h : Says g s) (e : Event Φ) (he : Answers (g, s) e) :
    Says (writePast g s e) (step s e) := by
  cases e with
  | relayStore frame => exact h.aside rfl rfl rfl rfl rfl rfl rfl rfl
  | relaySend i ok => exact h.relaySend i ok
  | register frame => exact h.register frame
  | callSend i ok => exact h.callSend i ok
  | callRaise i => exact h.callRaise i
  | callGet i expired => exact h.callGet i expired
  | callLeave i => exact h.callLeave i
  | receive x ok => exact h.receive x ok he
  | hand => exact h.hand
  | eof crash => exact h.eof crash
  | close => exact h.close
  | darken => exact h.darken
  | snapshot => exact h.snapshot
  | fail => exact h.fail
  | connected => exact h.connected
  | giveUp => exact h.giveUp
  | closeOld => exact h.closeOld
  | replay ok => exact h.replay ok
  | relight => exact h.relight
  | stop => exact h.aside rfl rfl rfl rfl rfl rfl rfl rfl
  | bye ok =>
    show Says g (if s.stopping && s.live && s.delivers s.conn ok then s.send s.conn .bye else s)
    split
    · exact h.send _ (by simp)
    · exact h
  | hangUp =>
    show Says g (if s.stopping then { s with shut := s.conn :: s.shut } else s)
    split
    · exact h.aside rfl rfl rfl rfl rfl rfl rfl rfl
    · exact h

/-- A `_forward_say` that has returned stays as it is. -/
theorem returned_step {i : Nat} {reply : Reply Φ} (hi : s.calls[i]? = some ⟨frame, .returned reply⟩)
    (e : Event Φ) : (step s e).calls[i]? = some ⟨frame, .returned reply⟩ := by
  have hset : ∀ {j : Nat} {other : Call Φ} {f : Φ} {pos : CallAt Φ}, s.calls[j]? = some other →
      (∀ r, other.pos ≠ .returned r) →
      (s.calls.set j ⟨f, pos⟩)[i]? = some ⟨frame, .returned reply⟩ := by
    intro j other f pos hj hpos
    rw [List.getElem?_set, if_neg, hi]
    rintro rfl
    rw [hi, Option.some.injEq] at hj
    exact hpos reply (by rw [← hj])
  cases e with
  | register f =>
    show (s.register f).calls[i]? = _
    unfold Stream.register
    split <;> exact getElem?_concat_of_some hi
  | callSend j ok =>
    show (s.callSend j ok).calls[i]? = _
    unfold Stream.callSend
    split
    · next hj =>
      split <;> exact hset hj (by simp)
    · exact hi
  | callRaise j =>
    show (s.callRaise j).calls[i]? = _
    unfold Stream.callRaise
    split
    · next hj => exact hset hj (by simp)
    · exact hi
  | callGet j expired =>
    show (s.callGet j expired).calls[i]? = _
    unfold Stream.callGet
    split
    · next hj =>
      split
      · exact hset hj (by simp)
      · split
        · exact hset hj (by simp)
        · exact hi
    · exact hi
  | callLeave j =>
    show (s.callLeave j).calls[i]? = _
    unfold Stream.callLeave
    split
    · next hj => exact hset hj (by simp)
    · exact hi
  | relaySend j ok =>
    show (s.relaySend j ok).calls[i]? = _
    unfold Stream.relaySend
    split
    · exact hi
    · simp only
      split
      · exact hi
      · split <;> exact hi
  | relayStore f => exact hi
  | receive x ok =>
    show (s.receive x ok).calls[i]? = _
    unfold Stream.receive
    split
    · cases x <;> simp only <;> split_ifs <;> exact hi
    · exact hi
  | hand => show s.hand.calls[i]? = _; unfold Stream.hand; split <;> exact hi
  | eof crash => show (s.eof crash).calls[i]? = _; unfold Stream.eof; split <;> exact hi
  | close => show s.close.calls[i]? = _; unfold Stream.close; split <;> exact hi
  | darken => show s.darken.calls[i]? = _; unfold Stream.darken; split <;> exact hi
  | snapshot => show s.snapshot.calls[i]? = _; unfold Stream.snapshot; split <;> exact hi
  | fail => show s.fail.calls[i]? = _; unfold Stream.fail; split <;> exact hi
  | connected => show s.connected.calls[i]? = _; unfold Stream.connected; split <;> exact hi
  | giveUp => show s.giveUp.calls[i]? = _; unfold Stream.giveUp; split <;> exact hi
  | closeOld => show s.closeOld.calls[i]? = _; unfold Stream.closeOld; split <;> exact hi
  | replay ok =>
    show (s.replay ok).calls[i]? = _
    unfold Stream.replay
    split
    · exact hi
    · split <;> exact hi
    · exact hi
  | relight => show s.relight.calls[i]? = _; unfold Stream.relight; split <;> exact hi
  | stop => exact hi
  | bye ok =>
    show (if s.stopping && s.live && s.delivers s.conn ok then s.send s.conn .bye else s).calls[i]? = _
    split <;> exact hi
  | hangUp =>
    show (if s.stopping then { s with shut := s.conn :: s.shut } else s).calls[i]? = _
    split <;> exact hi

/-- The three steps that are left to a `_forward_say`, if nothing comes any more. -/
def finish (i : Nat) (ok : Bool) : List (Event Φ) := [.callSend i ok, .callGet i true, .callLeave i]

theorem callAt_moveCall {i : Nat} {call : Call Φ} (hi : s.calls[i]? = some call) (frame : Φ)
    (pos : CallAt Φ) : (s.moveCall i frame pos).calls[i]? = some ⟨frame, pos⟩ := by
  obtain ⟨hlt, -⟩ := List.getElem?_eq_some_iff.mp hi
  show (s.calls.set i ⟨frame, pos⟩)[i]? = _
  rw [List.getElem?_set_self hlt]

/-- The `_forward_say` number `i` is on its way out. -/
def Leaves (s : Stream Φ) (i : Nat) : Prop :=
  ∃ frame seq reply, s.calls[i]? = some ⟨frame, .leaving seq reply⟩

/-- The `_forward_say` number `i` has returned. -/
def Returned (s : Stream Φ) (i : Nat) : Prop :=
  ∃ frame reply, s.calls[i]? = some ⟨frame, .returned reply⟩

theorem Returned.after {i : Nat} (h : s.Returned i) (es : List (Event Φ)) :
    (Run.after step s es).Returned i := by
  obtain ⟨frame, reply, hi⟩ := h
  have hall := Run.preserved (I := fun s' : Stream Φ => s'.calls[i]? = some ⟨frame, .returned reply⟩)
    (fun _ e h => returned_step h e) hi es
  exact ⟨frame, reply, hall⟩

/-- **A `_forward_say` returns** by its own steps, whatever the others do or leave undone. -/
theorem say_returns {i : Nat} {call : Call Φ} (hi : s.calls[i]? = some call) (ok : Bool) :
    (Run.after step s (finish i ok)).Returned i := by
  have hleave : ∀ s' : Stream Φ, s'.Leaves i → (s'.callLeave i).Returned i := by
    rintro s' ⟨frame, seq, reply, hi⟩
    refine ⟨frame, reply, ?_⟩
    rw [Stream.callLeave, hi]
    exact callAt_moveCall (s := { s' with pending := s'.pending.erase seq }) hi frame _
  have hget : ∀ (s' : Stream Φ) frame seq, s'.calls[i]? = some ⟨frame, .waiting seq⟩ →
      (s'.callGet i true).Leaves i := by
    intro s' frame seq hi
    rw [Stream.callGet, hi]
    simp only
    split
    · next reply rest hslot =>
      exact ⟨frame, seq, reply, callAt_moveCall
        (s := { s' with slots := Function.update s'.slots seq rest }) hi frame _⟩
    · exact ⟨frame, seq, .timeout, callAt_moveCall hi frame _⟩
  have hstay : ∀ (s' : Stream Φ) pos, s'.calls[i]? = some ⟨call.frame, pos⟩ →
      (∀ seq, pos ≠ .waiting seq) → s'.callGet i true = s' := by
    intro s' pos hi hpos
    rw [Stream.callGet, hi]
    split
    · next heq =>
      obtain ⟨-, rfl⟩ := Call.mk.inj (Option.some.inj heq)
      exact absurd rfl (hpos _)
    · rfl
  show (((s.callSend i ok).callGet i true).callLeave i).Returned i
  obtain ⟨frame, pos⟩ := call
  cases pos with
  | sending seq c =>
    rw [Stream.callSend, hi]
    simp only
    split
    · exact hleave _ (hget _ frame seq (callAt_moveCall (s := s.send c (.say seq frame)) hi frame _))
    · have hmoved := callAt_moveCall hi frame (.leaving seq .hubUnreachable)
      rw [hstay _ _ hmoved (by simp)]
      exact hleave _ ⟨frame, seq, .hubUnreachable, hmoved⟩
  | waiting seq =>
    have hsend : s.callSend i ok = s := by rw [Stream.callSend, hi]
    rw [hsend]
    exact hleave _ (hget s frame seq hi)
  | leaving seq reply =>
    have hsend : s.callSend i ok = s := by rw [Stream.callSend, hi]
    rw [hsend, hstay s _ hi (by simp)]
    exact hleave s ⟨frame, seq, reply, hi⟩
  | returned reply =>
    have hreturned : s.Returned i := ⟨frame, reply, hi⟩
    exact hreturned.after (finish i ok)

/-- What holds of a `_forward_say` that was given a number. -/
structure Settled (g : Past Φ) (s : Stream Φ) (i : Nat) (call : Call Φ) (seq : Nat) (c : ConnId) :
    Prop where
  alone : ∀ j d, g.tickets[j]? = some (some (seq, d)) → j = i
  own : ∀ a, call.pos = .returned (.hub a) → Out.say seq call.frame ∈ s.sent c ∧
    (c, seq, a) ∈ g.answers ∧ ∀ d b, (d, seq, b) ∈ g.answers → d = c ∧ b = a
  gone : ∀ reply, call.pos = .returned reply → seq ∉ s.pending
  tended : ∀ k, call.pos = .sending k c ∨ call.pos = .waiting k → k = seq ∧ s.Tended seq c

theorem Says.settled (h : Says g s) {i seq : Nat} {c : ConnId} {call : Call Φ}
    (hi : s.calls[i]? = some call) (ht : g.tickets[i]? = some (some (seq, c))) :
    Settled g s i call seq c := by
  have hstanding := h.calls i call _ hi ht
  have halone : ∀ j d, g.tickets[j]? = some (some (seq, d)) → j = i := fun j d hj =>
    h.distinct j i seq d c hj ht
  refine ⟨halone, fun a ha => ?_, fun reply hr => ?_, fun k hk => ?_⟩
  · rw [ha] at hstanding
    cases hstanding with
    | returned _ _ _ gone own =>
      obtain ⟨hsent, hanswer⟩ := own a rfl
      refine ⟨hsent, hanswer, fun d b hb => ?_⟩
      obtain ⟨f, hf⟩ := h.answered d seq b hb
      obtain ⟨j, other, -, htj, -⟩ := h.said d seq f hf
      obtain rfl := halone j d htj
      rw [ht] at htj
      obtain rfl : c = d := by simpa using htj
      exact ⟨rfl, h.once c seq b a hb hanswer⟩
  · rw [hr] at hstanding
    cases hstanding with
    | returned _ _ _ gone own => exact gone
  · rcases hk with hk | hk
    · rw [hk] at hstanding
      cases hstanding with
      | sending _ _ pending tended unsent => exact ⟨rfl, tended⟩
    · rw [hk] at hstanding
      cases hstanding with
      | waiting _ _ pending tended sent => exact ⟨rfl, tended⟩

/-- **Every say gets its own answer, or none, once.**  In every interleaving, with a hub that answers
each say at most once: a `_forward_say` that was given no number has returned `hub_unreachable`; one
that was given a number shares it with no other, returns a frame of the hub only if it is the answer
to it, leaves no number behind, and has a reply in its slot as soon as its connection has ended and
the reader is done with failing.  Each returns by its own steps, and what it has returned, or that it
has raised, stays. -/
theorem say_gets_its_answer (es : List (Event Φ))
    (hes : Run.Always (Run.withGhost step writePast) Answers (({} : Past Φ), ({} : Stream Φ)) es) :
    let x := Run.after (Run.withGhost step writePast) (({} : Past Φ), ({} : Stream Φ)) es
    ∀ (i : Nat) (call : Call Φ), x.2.calls[i]? = some call →
      (x.1.tickets[i]? = some none ∧ call.pos = .returned .hubUnreachable ∨
        ∃ seq c, x.1.tickets[i]? = some (some (seq, c)) ∧ Settled x.1 x.2 i call seq c) ∧
      (∀ ok, (Run.after step x.2 (finish i ok)).Returned i) ∧
      ∀ reply, call.pos = .returned reply → ∀ e, (step x.2 e).calls[i]? = some call := by
  intro x i call hi
  have h : Says x.1 x.2 := Run.invariant
    (I := fun x : Past Φ × Stream Φ => Says x.1 x.2) (P := Answers)
    (fun _ e h he => h.step e he) Says.initial hes
  refine ⟨?_, fun ok => say_returns hi ok, fun reply hr e => ?_⟩
  · obtain ⟨t, ht, hstanding⟩ := h.ticket hi
    cases t with
    | none =>
      refine Or.inl ⟨ht, ?_⟩
      obtain ⟨frame, pos⟩ := call
      cases hstanding
      rfl
    | some ticket =>
      obtain ⟨seq, c⟩ := ticket
      exact Or.inr ⟨seq, c, ht, h.settled hi ht⟩
  · obtain ⟨frame, pos⟩ := call
    obtain rfl : pos = .returned reply := hr
    exact returned_step hi e

/-- Two says cross an outage: the first is answered, the second fails with its connection. -/
def anOutage : List (Event State) :=
  [.register .busy, .callSend 0 true, .register .idle, .callSend 1 true,
    .receive (.answer 1 .busy) true, .hand, .eof false, .darken, .snapshot, .fail, .fail,
    .callGet 0 false, .callGet 1 false, .callLeave 1, .callLeave 0]

theorem say_gets_its_answer_outage :
    let x := Run.after (Run.withGhost step writePast) (({} : Past State), ({} : Stream State)) anOutage
    x.2.calls[0]? = some ⟨.busy, .returned (.hub .busy)⟩ ∧
      x.2.calls[1]? = some ⟨.idle, .returned .hubUnreachable⟩ ∧
      ∃ seq c, x.1.tickets[0]? = some (some (seq, c)) ∧
        Settled x.1 x.2 0 ⟨.busy, .returned (.hub .busy)⟩ seq c := by
  have hanswers : Run.Always (Run.withGhost step writePast) Answers
      (({} : Past State), ({} : Stream State)) anOutage := by
    refine ⟨trivial, trivial, trivial, trivial, fun c hc => ?_, trivial, trivial, trivial, trivial,
      trivial, trivial, trivial, trivial, trivial, trivial, trivial⟩
    obtain rfl : (0 : ConnId) = c := Reader.pumping.inj hc
    refine ⟨⟨.busy, List.mem_cons_self ..⟩, fun frame hmem => ?_⟩
    cases hmem
  refine ⟨rfl, rfl, ?_⟩
  obtain ⟨⟨hnone, -⟩ | hsettled, -⟩ := say_gets_its_answer anOutage hanswers 0 _ rfl
  · cases hnone
  · exact hsettled

end

end Stream

end Moot
