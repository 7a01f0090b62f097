import Moot.Opencode.Connection
import Mathlib.Tactic

/-!
# Sockets, timers and says of the connection

The law of the trace (`law`), and the invariant that keeps it: the sockets and the
retry timer (`Wired`), and the says and their timers (`Promised`).

Proved here: each call and callback of the connection keeps the invariant (`Good`).
-/

namespace Moot.Opencode
open Py Trace

variable {Φ : Type} (hooks : Hooks Φ)

/-! ## The law of the trace -/

def Welcomes (line : Str) : Prop := ∃ f, hooks.parse line = .ok f ∧ f.t = some (str "welcome")

def Refuses (line : Str) : Prop := ∃ f, hooks.parse line = .ok f ∧ f.t = some (str "err")

/-- The hub's welcome was read from the socket. -/
def WelcomedOn (log : List (Entry Φ)) (c : Nat) : Prop :=
  ∃ line, .dispatched c line ∈ log ∧ Welcomes hooks line

/-- Neither was `stop` called nor an `err` read before the welcome. -/
def Going (log : List (Entry Φ)) : Prop :=
  .stopped ∉ log ∧ ∀ pre c line post, log = pre ++ .dispatched c line :: post →
    Refuses hooks line → WelcomedOn hooks pre c

/-- What may come after what. -/
def law (pre : List (Entry Φ)) : Entry Φ → Prop
  | .opened c => Going hooks pre ∧ .opened c ∉ pre
  | .armed _ => Going hooks pre
  | .wrote c out => Going hooks pre ∧
      if out.isHello then ∀ o, .wrote c o ∉ pre else WelcomedOn hooks pre c
  | .dispatched c _ => .stopped ∉ pre ∧ .destroyed c ∉ pre
  | .said seq => .said seq ∉ pre
  | .resolved seq answer => .said seq ∈ pre ∧ (∀ a, .resolved seq a ∉ pre) ∧
      match answer with
      | .hub f => f.seq = some (seq : Int) ∧ ∃ init c line frame,
          pre = init ++ [.dispatched c line] ∧ hooks.parse line = .ok f ∧
            .wrote c (.say seq frame) ∈ init
      | .err code _ => code = Connection.unreachable ∨ code = Connection.timeout
  | _ => True

variable {hooks}

theorem WelcomedOn.append {log es : List (Entry Φ)} {c : Nat} (h : WelcomedOn hooks log c) :
    WelcomedOn hooks (log ++ es) c := by
  obtain ⟨line, hline, hwelcome⟩ := h
  exact ⟨line, List.mem_append_left _ hline, hwelcome⟩

theorem Going.snoc {log : List (Entry Φ)} (h : Going hooks log) {e : Entry Φ} (hstop : e ≠ .stopped)
    (hrefused : ∀ c line, e = .dispatched c line → Refuses hooks line → WelcomedOn hooks log c) :
    Going hooks (log ++ [e]) := by
  refine ⟨?_, ?_⟩
  · rw [List.mem_append, List.mem_singleton]
    rintro (hold | hnew)
    · exact h.1 hold
    · exact hstop hnew.symm
  · intro pre c line post hlog hline
    obtain rfl | ⟨post', last, rfl⟩ := List.eq_nil_or_concat post
    · obtain ⟨rfl, hlast⟩ := List.append_inj' hlog rfl
      cases hlast
      exact hrefused c line rfl hline
    · rw [List.concat_eq_append, ← List.cons_append, ← List.append_assoc] at hlog
      obtain ⟨hinit, -⟩ := List.append_inj' hlog rfl
      exact h.2 pre c line post' hinit hline

namespace Connection

/-! ## The invariant -/

/-- The socket can still give a signal other than `close`. -/
def Alive (sockets : List Phase) (c : Nat) : Prop :=
  sockets[c]? = some .connecting ∨ sockets[c]? = some .opened

variable (hooks) in
/-- The sockets and the retry timer. -/
structure Wired (s : Connection Φ) : Prop where
  owned : ∀ c, s.socket = some c ↔ Alive s.sockets c
  live : ∀ c, s.socket = some c → (s.live = true ↔ s.sockets[c]? = some .opened)
  idle : s.socket = none → s.live = false ∧ s.welcomed = false
  welcomed : ∀ c, s.socket = some c → s.welcomed = true → s.live = true ∧ WelcomedOn hooks s.log c
  timers : s.timers = s.retry.toList
  apart : s.socket ≠ none → s.retry = none
  ended : s.stopped = true → s.socket = none ∧ s.retry = none
  made : ∀ c, .opened c ∈ s.log ↔ c < s.sockets.length
  wrote : ∀ c out, .wrote c out ∈ s.log → c < s.sockets.length ∧ s.sockets[c]? ≠ some .connecting
  gone : ∀ c, .destroyed c ∈ s.log → c < s.sockets.length ∧ ¬ Alive s.sockets c

/-- The says and their timers; those that wait were written on the socket `owner`. -/
structure Promised (owner : Option Nat) (s : Connection Φ) : Prop where
  alarms : s.alarms = s.pending
  nodup : s.pending.Nodup
  said : ∀ n, .said n ∈ s.log ↔ 1 ≤ n ∧ n ≤ s.seq
  waiting : ∀ n ∈ s.pending, .said n ∈ s.log ∧ (∀ a, .resolved n a ∉ s.log) ∧
    ∃ c frame, owner = some c ∧ .wrote c (.say n frame) ∈ s.log
  settled : ∀ n, .said n ∈ s.log → n ∉ s.pending → ∃ a, .resolved n a ∈ s.log
  resolved : ∀ n a, .resolved n a ∈ s.log → .said n ∈ s.log

variable (hooks) in
structure Good (s : Connection Φ) : Prop where
  lawful : Lawful (law hooks) s.log
  going : s.stopped = false → Going hooks s.log
  wired : Wired hooks s
  promised : Promised s.socket s

variable {s : Connection Φ} {owner : Option Nat}

theorem Promised.nothing (h : Promised none s) : s.pending = [] := by
  rw [List.eq_nil_iff_forall_not_mem]
  intro n hn
  obtain ⟨-, -, c, frame, hc, -⟩ := h.waiting n hn
  cases hc

/-- An entry that opens and destroys no socket. -/
theorem Wired.note (h : Wired hooks s) {e : Entry Φ}
    (hopened : ∀ c, e ≠ .opened c) (hgone : ∀ c, e ≠ .destroyed c)
    (hwrote : ∀ c out, e = .wrote c out → c < s.sockets.length ∧ s.sockets[c]? ≠ some .connecting) :
    Wired hooks (s.note e) := by
  constructor
  · exact h.owned
  · exact h.live
  · exact h.idle
  · exact fun c hc hwelcome => (h.welcomed c hc hwelcome).imp_right WelcomedOn.append
  · exact h.timers
  · exact h.apart
  · exact h.ended
  · intro c
    refine Iff.trans ?_ (h.made c)
    rw [Connection.note, List.mem_append, List.mem_singleton]
    exact or_iff_left fun hnew => hopened c hnew.symm
  · intro c out hc
    obtain hold | hnew := List.mem_append.1 hc
    · exact h.wrote c out hold
    · exact hwrote c out (List.mem_singleton.1 hnew).symm
  · intro c hc
    obtain hold | hnew := List.mem_append.1 hc
    · exact h.gone c hold
    · exact absurd (List.mem_singleton.1 hnew).symm (hgone c)

/-- An entry that is about no `say`. -/
theorem Promised.note (h : Promised owner s) {e : Entry Φ} (hsaid : ∀ n, e ≠ .said n)
    (hresolved : ∀ n a, e ≠ .resolved n a) : Promised owner (s.note e) := by
  have hmem : ∀ x : Entry Φ, x ∈ (s.note e).log ↔ x ∈ s.log ∨ x = e := by simp [Connection.note]
  have hold : ∀ n, .said n ∈ (s.note e).log ↔ .said n ∈ s.log := by
    intro n
    rw [hmem]
    exact ⟨fun hor => hor.resolve_right fun heq => hsaid n heq.symm, Or.inl⟩
  have hres : ∀ n a, .resolved n a ∈ (s.note e).log ↔ .resolved n a ∈ s.log := by
    intro n a
    rw [hmem]
    exact ⟨fun hor => hor.resolve_right fun heq => hresolved n a heq.symm, Or.inl⟩
  constructor
  · exact h.alarms
  · exact h.nodup
  · exact fun n => (hold n).trans (h.said n)
  · intro n hn
    obtain ⟨hthere, hnone, c, frame, hc, hwrote⟩ := h.waiting n hn
    refine ⟨(hold n).2 hthere, fun a ha => hnone a ((hres n a).1 ha), c, frame, hc, ?_⟩
    exact (hmem _).2 (Or.inl hwrote)
  · intro n hn hpending
    obtain ⟨a, ha⟩ := h.settled n ((hold n).1 hn) hpending
    exact ⟨a, (hres n a).2 ha⟩
  · exact fun n a ha => (hold n).2 (h.resolved n a ((hres n a).1 ha))

/-! ## Calls -/

theorem Good.logged (h : Good hooks s) (message : Str) : Good hooks (s.note (.logged message)) :=
  ⟨h.lawful.snoc trivial, fun hgo => (h.going hgo).snoc (by simp) (by simp),
    h.wired.note (by simp) (by simp) (by simp), h.promised.note (by simp) (by simp)⟩

theorem Wired.running (h : Wired hooks s) {c : Nat} (hc : s.socket = some c) :
    s.stopped = false := by
  rw [← Bool.not_eq_true]
  intro hstop
  rw [(h.ended hstop).1] at hc
  cases hc

/-- A frame that is no hello goes out after the welcome only. -/
theorem Good.write (h : Good hooks s) {c : Nat} {out : Outbound Φ} (hc : s.socket = some c)
    (hwelcome : s.welcomed = true) (hout : out.isHello = false) : Good hooks (s.write c out) := by
  obtain ⟨hlive, hread⟩ := h.wired.welcomed c hc hwelcome
  have hopen := (h.wired.live c hc).1 hlive
  have hgo := h.going (h.wired.running hc)
  refine ⟨h.lawful.snoc ⟨hgo, ?_⟩, fun _ => hgo.snoc (by simp) (by simp), ?_, ?_⟩
  · rw [hout]
    exact hread
  · refine h.wired.note (by simp) (by simp) ?_
    rintro c' o ⟨⟩
    exact ⟨(List.getElem?_eq_some_iff.1 hopen).1, by simp [hopen]⟩
  · exact h.promised.note (by simp) (by simp)

theorem Good.send (h : Good hooks s) {out : Outbound Φ} (hout : out.isHello = false) :
    Good hooks (s.send out).1 := by
  unfold Connection.send
  split
  next c hc =>
    split
    next hwelcome => exact h.write hc hwelcome hout
    · exact h
  · exact h

theorem Wired.says (h : Wired hooks s) (seq : Nat) (pending alarms : List Nat) :
    Wired hooks { s with seq, pending, alarms } :=
  ⟨h.owned, h.live, h.idle, h.welcomed, h.timers, h.apart, h.ended, h.made, h.wrote, h.gone⟩

/-- A new say, for which `e` says that it was written, or that it was answered here. -/
theorem Promised.say (waits : Bool) (h : Promised owner s) {e : Entry Φ}
    (hwaits : waits = true → ∃ c frame, owner = some c ∧ e = .wrote c (.say (s.seq + 1) frame))
    (hanswered : waits = false → ∃ a, e = .resolved (s.seq + 1) a) :
    Promised owner { s with
      seq := s.seq + 1
      pending := if waits then s.pending ++ [s.seq + 1] else s.pending
      alarms := if waits then s.alarms ++ [s.seq + 1] else s.alarms
      log := s.log ++ [.said (s.seq + 1)] ++ [e] } := by
  have hfresh : .said (s.seq + 1) ∉ s.log := by
    rw [h.said]
    omega
  have hnotwaiting : s.seq + 1 ∉ s.pending := fun hn => hfresh (h.waiting _ hn).1
  have hnone : ∀ a, .resolved (s.seq + 1) a ∉ s.log := fun a ha => hfresh (h.resolved _ _ ha)
  have hother : ∀ n, e ≠ .said n := by
    intro n hn
    cases waits with
    | true => obtain ⟨c, frame, -, rfl⟩ := hwaits rfl; cases hn
    | false => obtain ⟨a, rfl⟩ := hanswered rfl; cases hn
  have hsaid : ∀ n, .said n ∈ s.log ++ [.said (s.seq + 1)] ++ [e] ↔
      .said n ∈ s.log ∨ n = s.seq + 1 := by
    intro n
    have := hother n
    simp [this.symm]
  constructor
  · cases waits <;> simp [h.alarms]
  · cases waits with
    | true =>
      rw [if_pos rfl, ← List.concat_eq_append]
      exact h.nodup.concat hnotwaiting
    | false => exact h.nodup
  · intro n
    rw [hsaid, h.said]
    dsimp only
    omega
  · intro n hn
    cases waits with
    | true =>
      obtain ⟨c, frame, hc, rfl⟩ := hwaits rfl
      dsimp only at hn
      rw [if_pos rfl, List.mem_append, List.mem_singleton] at hn
      obtain hn | rfl := hn
      · obtain ⟨hthere, hunresolved, c', frame', hc', hwrote⟩ := h.waiting n hn
        refine ⟨(hsaid n).2 (Or.inl hthere), by simpa using hunresolved, c', frame', hc', ?_⟩
        simp [hwrote]
      · exact ⟨(hsaid _).2 (Or.inr rfl), by simpa using hnone, c, frame, hc, by simp⟩
    | false =>
      obtain ⟨a, rfl⟩ := hanswered rfl
      obtain ⟨hthere, hunresolved, c', frame', hc', hwrote⟩ := h.waiting n hn
      have hne : n ≠ s.seq + 1 := fun heq => hnotwaiting (heq ▸ hn)
      refine ⟨(hsaid n).2 (Or.inl hthere), by simpa [hne] using hunresolved, c', frame', hc', ?_⟩
      simp [hwrote]
  · intro n hn hpending
    obtain hthere | rfl := (hsaid n).1 hn
    · have hold : n ∉ s.pending := by
        cases waits with
        | true => exact fun hin => hpending (by simp [hin])
        | false => exact hpending
      obtain ⟨a, ha⟩ := h.settled n hthere hold
      exact ⟨a, by simp [ha]⟩
    · cases waits with
      | true => exact absurd (by simp) hpending
      | false =>
        obtain ⟨a, rfl⟩ := hanswered rfl
        exact ⟨a, by simp⟩
  · intro n a ha
    rw [hsaid]
    dsimp only at ha
    rw [List.mem_append, List.mem_append, List.mem_singleton, List.mem_singleton] at ha
    obtain (hold | hnew) | hlast := ha
    · exact Or.inl (h.resolved n a hold)
    · cases hnew
    · cases waits with
      | true => obtain ⟨c, frame, -, rfl⟩ := hwaits rfl; cases hlast
      | false =>
        obtain ⟨b, rfl⟩ := hanswered rfl
        cases hlast
        exact Or.inr rfl

theorem say_sent {c : Nat} (hc : s.socket = some c) (hwelcome : s.welcomed = true) (frame : Φ) :
    s.say frame = { s with
      seq := s.seq + 1
      pending := s.pending ++ [s.seq + 1]
      alarms := s.alarms ++ [s.seq + 1]
      log := s.log ++ [.said (s.seq + 1)] ++ [.wrote c (.say (s.seq + 1) frame)] } := by
  simp [Connection.say, Connection.send, Connection.note, Connection.write, hc, hwelcome]

theorem say_unsent (hsend : ¬ ∃ c, s.socket = some c ∧ s.welcomed = true) (frame : Φ) :
    s.say frame = { s with
      seq := s.seq + 1
      log := s.log ++ [.said (s.seq + 1)] ++
        [.resolved (s.seq + 1) (.err unreachable (str "no connection to the hub"))] } := by
  unfold Connection.say Connection.send
  cases hc : s.socket with
  | none => simp [Connection.note]
  | some c =>
    have hwelcome : s.welcomed = false := by
      rw [← Bool.not_eq_true]
      exact fun hwelcome => hsend ⟨c, hc, hwelcome⟩
    simp [Connection.note, hwelcome]

/-- A say that goes out waits for its answer, another one is answered here. -/
theorem Good.say (h : Good hooks s) (frame : Φ) : Good hooks (s.say frame) := by
  have hfresh : .said (s.seq + 1) ∉ s.log := by
    rw [h.promised.said]
    omega
  have hlaw : Lawful (law hooks) (s.log ++ [.said (s.seq + 1)]) := h.lawful.snoc hfresh
  have hgoing : s.stopped = false → Going hooks (s.log ++ [.said (s.seq + 1)]) :=
    fun hgo => (h.going hgo).snoc (by simp) (by simp)
  have hwired : Wired hooks (s.note (.said (s.seq + 1))) :=
    h.wired.note (by simp) (by simp) (by simp)
  by_cases hsend : ∃ c, s.socket = some c ∧ s.welcomed = true
  · obtain ⟨c, hc, hwelcome⟩ := hsend
    obtain ⟨hlive, hread⟩ := h.wired.welcomed c hc hwelcome
    have hopen := (h.wired.live c hc).1 hlive
    rw [say_sent hc hwelcome]
    refine ⟨hlaw.snoc ⟨hgoing (h.wired.running hc), hread.append⟩,
      fun hgo => (hgoing hgo).snoc (by simp) (by simp), ?_, ?_⟩
    · refine Wired.says (Wired.note hwired (by simp) (by simp) ?_) _ _ _
      rintro c' o ⟨⟩
      exact ⟨(List.getElem?_eq_some_iff.1 hopen).1, by simp [Connection.note, hopen]⟩
    · exact Promised.say true h.promised (fun _ => ⟨c, frame, hc, rfl⟩) (by simp)
  · have hnone : ∀ a, .resolved (s.seq + 1) a ∉ s.log ++ [Entry.said (s.seq + 1)] := by
      intro a ha
      rw [List.mem_append, List.mem_singleton] at ha
      obtain ha | ha := ha
      · exact hfresh (h.promised.resolved _ _ ha)
      · cases ha
    rw [say_unsent hsend]
    refine ⟨hlaw.snoc ⟨by simp, hnone, Or.inl rfl⟩,
      fun hgo => (hgoing hgo).snoc (by simp) (by simp), ?_, ?_⟩
    · exact Wired.says (Wired.note hwired (by simp) (by simp) (by simp)) _ _ _
    · exact Promised.say false h.promised (by simp) (fun _ => ⟨_, rfl⟩)

/-! ## Answers -/

/-- A say that waits is answered. -/
theorem Promised.resolve (h : Promised owner s) {n : Nat} (hn : n ∈ s.pending) (a : Answer Φ) :
    Promised owner { s with
      pending := s.pending.erase n
      alarms := s.alarms.erase n
      log := s.log ++ [.resolved n a] } := by
  have hmem : ∀ m, m ∈ s.pending.erase n ↔ m ≠ n ∧ m ∈ s.pending := fun m => h.nodup.mem_erase_iff
  constructor
  · exact congrArg (List.erase · n) h.alarms
  · exact h.nodup.erase n
  · simpa using h.said
  · intro m hm
    obtain ⟨hne, hold⟩ := (hmem m).1 hm
    obtain ⟨hthere, hunresolved, c, frame, hc, hwrote⟩ := h.waiting m hold
    refine ⟨by simpa using hthere, ?_, c, frame, hc, by simpa using hwrote⟩
    intro b hb
    rw [List.mem_append, List.mem_singleton] at hb
    obtain hb | hb := hb
    · exact hunresolved b hb
    · cases hb
      exact hne rfl
  · intro m hm hpending
    have hthere : .said m ∈ s.log := by simpa using hm
    by_cases hmn : m = n
    · exact ⟨a, by simp [hmn]⟩
    · obtain ⟨b, hb⟩ := h.settled m hthere fun hin => hpending ((hmem m).2 ⟨hmn, hin⟩)
      exact ⟨b, by simp [hb]⟩
  · intro m b hb
    rw [List.mem_append, List.mem_singleton] at hb
    obtain hb | hb := hb
    · simpa using h.resolved m b hb
    · cases hb
      simpa using (h.waiting n hn).1

/-- What `failPending` writes. -/
def failures (reason : Str) (pending : List Nat) : List (Entry Φ) :=
  pending.map fun n => .resolved n (.err unreachable reason)

theorem failPending_eq (halarms : s.alarms = s.pending) (reason : Str) :
    s.failPending reason =
      { s with pending := [], alarms := [], log := s.log ++ failures reason s.pending } := by
  have hfold : ∀ (ns : List Nat) (t : Connection Φ), t.alarms = ns →
      ns.foldl (fun s seq => s.settle seq (.err unreachable reason)) t =
        { t with alarms := [], log := t.log ++ failures reason ns } := by
    intro ns
    induction ns with
    | nil =>
      intro t ht
      cases t
      simp_all [failures]
    | cons n ns ih =>
      intro t ht
      rw [List.foldl_cons, ih _ (by simp [settle, Connection.note, ht])]
      simp [settle, Connection.note, failures]
  exact hfold s.pending { s with pending := [] } halarms

theorem Promised.failed (h : Promised owner s) (hlaw : Lawful (law hooks) s.log) (reason : Str) :
    Lawful (law hooks) (s.log ++ failures reason s.pending) ∧ ∀ o, Promised o { s with
      pending := [], alarms := [], log := s.log ++ failures reason s.pending } := by
  induction hpending : s.pending generalizing s with
  | nil =>
    have halarms := h.alarms
    refine ⟨by simpa [failures] using hlaw, fun o => ?_⟩
    have hsame : { s with pending := [], alarms := [], log := s.log ++ failures reason [] } = s := by
      cases s
      simp_all [failures]
    rw [hsame]
    refine ⟨h.alarms, h.nodup, h.said, ?_, h.settled, h.resolved⟩
    rw [hpending]
    simp
  | cons n ns ih =>
    have hn : n ∈ s.pending := by rw [hpending]; exact List.mem_cons_self ..
    obtain ⟨hsaid, hnone, -⟩ := h.waiting n hn
    have hnext := h.resolve hn (.err unreachable reason)
    have hrest := ih hnext (hlaw.snoc ⟨hsaid, hnone, Or.inl rfl⟩) (by simp [hpending])
    simpa [failures] using hrest

/-- An entry that neither opens, writes on nor destroys a socket. -/
def Neutral : Entry Φ → Prop
  | .said _ | .resolved .. | .logged _ | .received .. | .armed _ => True
  | _ => False

theorem Wired.neutral (h : Wired hooks s) {es : List (Entry Φ)} (hes : ∀ e ∈ es, Neutral e) :
    Wired hooks { s with log := s.log ++ es } := by
  induction es generalizing s with
  | nil => simpa using h
  | cons e es ih =>
    have he := hes e (List.mem_cons_self ..)
    have hnote : Wired hooks (s.note e) := by
      refine h.note ?_ ?_ ?_ <;> cases e <;> simp_all [Neutral]
    have hrest := ih hnote fun e' he' => hes e' (List.mem_cons_of_mem _ he')
    simpa [Connection.note] using hrest

theorem Going.neutral {log es : List (Entry Φ)} (h : Going hooks log) (hes : ∀ e ∈ es, Neutral e) :
    Going hooks (log ++ es) := by
  induction es generalizing log with
  | nil => simpa using h
  | cons e es ih =>
    have he := hes e (List.mem_cons_self ..)
    have hsnoc : Going hooks (log ++ [e]) := by
      refine h.snoc ?_ ?_ <;> cases e <;> simp_all [Neutral]
    have hrest := ih hsnoc fun e' he' => hes e' (List.mem_cons_of_mem _ he')
    simpa using hrest

theorem failures_neutral (reason : Str) (pending : List Nat) :
    ∀ e ∈ failures (Φ := Φ) reason pending, Neutral e := by
  intro e he
  obtain ⟨n, -, rfl⟩ := List.mem_map.1 he
  trivial

/-! ## The end of a connection -/

/-- The connection has no socket any more. -/
theorem Wired.shut (h : Wired hooks s) {t : Connection Φ} {es : List (Entry Φ)}
    (hlog : t.log = s.log ++ es) (hsocket : t.socket = none) (hlive : t.live = false)
    (hwelcomed : t.welcomed = false) (hdead : ∀ c, ¬ Alive t.sockets c)
    (hlen : t.sockets.length = s.sockets.length) (hretry : t.retry = none) (htimers : t.timers = [])
    (hes : ∀ e ∈ es, ∃ c < s.sockets.length, e = .destroyed c) :
    Wired hooks t := by
  have hnew : ∀ e, e ∈ t.log → e ∈ s.log ∨ ∃ c < s.sockets.length, e = .destroyed c := by
    intro e he
    rw [hlog, List.mem_append] at he
    exact he.imp_right (hes e)
  constructor
  · intro c
    rw [hsocket]
    refine ⟨?_, fun hc => absurd hc (hdead c)⟩
    rintro ⟨⟩
  · intro c hc
    rw [hsocket] at hc
    cases hc
  · exact fun _ => ⟨hlive, hwelcomed⟩
  · intro c hc
    rw [hsocket] at hc
    cases hc
  · rw [htimers, hretry]
    rfl
  · exact fun hne => absurd hsocket hne
  · exact fun _ => ⟨hsocket, hretry⟩
  · intro c
    rw [hlen, ← h.made c]
    refine ⟨fun hc => ?_, fun hc => by rw [hlog]; exact List.mem_append_left _ hc⟩
    obtain hold | ⟨c', -, hgone⟩ := hnew _ hc
    · exact hold
    · cases hgone
  · intro c out hc
    rw [hlen]
    refine ⟨?_, fun hconnecting => hdead c (Or.inl hconnecting)⟩
    obtain hold | ⟨c', -, hgone⟩ := hnew _ hc
    · exact (h.wrote c out hold).1
    · cases hgone
  · intro c hc
    rw [hlen]
    refine ⟨?_, hdead c⟩
    obtain hold | ⟨c', hlt, hgone⟩ := hnew _ hc
    · exact (h.gone c hold).1
    · cases hgone
      exact hlt

/-- Without its socket there is none that is alive. -/
theorem Wired.dead (h : Wired hooks s) {c : Nat} (hc : s.socket = some c) {phase : Phase}
    (hphase : phase = .destroyed ∨ phase = .closed) (d : Nat) :
    ¬ Alive (s.sockets.set c phase) d := by
  intro halive
  unfold Alive at halive
  by_cases hcd : c = d
  · subst hcd
    rw [List.getElem?_set_self'] at halive
    cases hget : s.sockets[c]? <;> obtain rfl | rfl := hphase <;> simp_all
  · rw [List.getElem?_set_ne hcd] at halive
    have hd := (h.owned d).2 halive
    rw [hc] at hd
    exact hcd (Option.some.inj hd)

theorem Wired.vacant (h : Wired hooks s) (hnone : s.socket = none) (d : Nat) :
    ¬ Alive s.sockets d := by
  intro halive
  have hd := (h.owned d).2 halive
  rw [hnone] at hd
  cases hd

/-- The first half of `down`: no socket, and all says answered. -/
def lose (s : Connection Φ) (c : Nat) (reason : Str) : Connection Φ :=
  ({ s with socket := none, live := false, welcomed := false }.destroy c).failPending reason

theorem lose_eq (halarms : s.alarms = s.pending) (c : Nat) (reason : Str) :
    s.lose c reason = { s with
      socket := none, live := false, welcomed := false, sockets := s.sockets.set c .destroyed
      pending := [], alarms := [], log := s.log ++ [.destroyed c] ++ failures reason s.pending } := by
  unfold lose
  rw [failPending_eq (by exact halarms)]
  rfl

theorem Wired.lt (h : Wired hooks s) {c : Nat} (hc : s.socket = some c) : c < s.sockets.length := by
  obtain hget | hget := (h.owned c).1 hc <;> exact (List.getElem?_eq_some_iff.1 hget).1

theorem Wired.no_timer (h : Wired hooks s) {c : Nat} (hc : s.socket = some c) :
    s.retry = none ∧ s.timers = [] := by
  have hretry := h.apart (by simp [hc])
  exact ⟨hretry, by rw [h.timers, hretry]; rfl⟩

theorem Good.lose (h : Good hooks s) {c : Nat} (hc : s.socket = some c) (reason : Str) :
    Good hooks (s.lose c reason) := by
  obtain ⟨hretry, htimers⟩ := h.wired.no_timer hc
  have hnote : Promised s.socket (s.note (.destroyed c)) := h.promised.note (by simp) (by simp)
  obtain ⟨hlaw, hpromised⟩ := hnote.failed (h.lawful.snoc trivial) reason
  rw [lose_eq h.promised.alarms]
  refine ⟨hlaw, ?_, ?_, ?_⟩
  · intro hgo
    have hgone : Going hooks (s.log ++ [.destroyed c]) := (h.going hgo).snoc (by simp) (by simp)
    exact Going.neutral hgone (failures_neutral reason s.pending)
  · have hshut : Wired hooks { s with
        socket := none, live := false, welcomed := false, sockets := s.sockets.set c .destroyed
        pending := [], alarms := [], log := s.log ++ [.destroyed c] } := by
      refine h.wired.shut rfl rfl rfl rfl (h.wired.dead hc (Or.inl rfl)) ?_ hretry htimers ?_
      · exact List.length_set
      · intro e he
        rw [List.mem_singleton] at he
        exact ⟨c, h.wired.lt hc, he⟩
    exact hshut.neutral (failures_neutral reason s.pending)
  · have hall := hpromised none
    exact ⟨hall.alarms, hall.nodup, hall.said, hall.waiting, hall.settled, hall.resolved⟩

def goodbye : Str := str "the plugin is shutting down"

theorem stop_none (hw : Wired hooks s) (hp : Promised s.socket s) (hc : s.socket = none) :
    s.stop = { s with
      stopped := true, live := false, welcomed := false, retry := none, timers := [] } := by
  have hpending : s.pending = [] := Promised.nothing (hc ▸ hp)
  have halarms : s.alarms = [] := hp.alarms.trans hpending
  have htimers := hw.timers
  cases s
  unfold stop
  rename_i retry _ _ _ _ _ _ _
  cases retry <;> simp_all [failPending]

theorem stop_some (hw : Wired hooks s) {c : Nat} (hc : s.socket = some c) :
    s.stop = { s with stopped := true }.lose c goodbye := by
  unfold stop lose
  simp [(hw.no_timer hc).1, hc, goodbye]

/-- `stop` needs no more than sockets and says in order. -/
theorem good_stop (hlaw : Lawful (law hooks) s.log) (hw : Wired hooks s)
    (hp : Promised s.socket s) : Good hooks s.stop := by
  cases hc : s.socket with
  | none =>
    rw [stop_none hw hp hc]
    refine ⟨hlaw, by simp, ?_, ?_⟩
    · exact hw.shut (List.append_nil _).symm hc rfl rfl (hw.vacant hc) rfl rfl rfl (by simp)
    · exact ⟨hp.alarms, hp.nodup, hp.said, hp.waiting, hp.settled, hp.resolved⟩
  | some c =>
    obtain ⟨hretry, htimers⟩ := hw.no_timer hc
    have hnote : Promised s.socket (s.note (.destroyed c)) := hp.note (by simp) (by simp)
    obtain ⟨hlaw', hpromised⟩ := hnote.failed (hlaw.snoc trivial) goodbye
    rw [stop_some hw hc, lose_eq (by exact hp.alarms)]
    refine ⟨hlaw', by simp, ?_, ?_⟩
    · have hshut : Wired hooks { s with
          stopped := true, socket := none, live := false, welcomed := false
          sockets := s.sockets.set c .destroyed
          pending := [], alarms := [], log := s.log ++ [.destroyed c] } := by
        refine hw.shut rfl rfl rfl rfl (hw.dead hc (Or.inl rfl)) ?_ hretry htimers ?_
        · exact List.length_set
        · intro e he
          rw [List.mem_singleton] at he
          exact ⟨c, hw.lt hc, he⟩
      exact hshut.neutral (failures_neutral goodbye s.pending)
    · have hall := hpromised none
      exact ⟨hall.alarms, hall.nodup, hall.said, hall.waiting, hall.settled, hall.resolved⟩

/-! ## Calls of a handler -/

/-- Nothing was read. -/
def Unread : Entry Φ → Prop
  | .received .. | .dispatched .. => False
  | _ => True

/-- What calls do: they read nothing, and leave the socket alone, or stop. -/
structure Called (s t : Connection Φ) : Prop where
  buffer : t.buffer = s.buffer
  log : ∃ es, t.log = s.log ++ es ∧ (∀ e ∈ es, Unread e) ∧
    (t.stopped = s.stopped ∧ t.socket = s.socket ∧ t.sockets = s.sockets ∨
      t.stopped = true ∧ ∀ c, s.socket = some c → .destroyed c ∈ es)

theorem Called.refl (s : Connection Φ) : Called s s :=
  ⟨rfl, [], by simp, by simp, Or.inl ⟨rfl, rfl, rfl⟩⟩

/-- One more entry, at the same sockets. -/
theorem Called.of_note {s t : Connection Φ} {es : List (Entry Φ)} (hbuffer : t.buffer = s.buffer)
    (hlog : t.log = s.log ++ es) (hes : ∀ e ∈ es, Unread e) (hstopped : t.stopped = s.stopped)
    (hsocket : t.socket = s.socket) (hsockets : t.sockets = s.sockets) : Called s t :=
  ⟨hbuffer, es, hlog, hes, Or.inl ⟨hstopped, hsocket, hsockets⟩⟩

theorem Called.trans {s t u : Connection Φ} (hst : Called s t) (htu : Called t u)
    (hkeep : t.stopped = true → u.stopped = true) : Called s u := by
  obtain ⟨hbuffer, es, hlog, hes, hend⟩ := hst
  obtain ⟨hbuffer', es', hlog', hes', hend'⟩ := htu
  refine ⟨hbuffer'.trans hbuffer, es ++ es', by rw [hlog', hlog, List.append_assoc], ?_, ?_⟩
  · intro e he
    obtain he | he := List.mem_append.1 he
    · exact hes e he
    · exact hes' e he
  · obtain ⟨hstopped, hsocket, hsockets⟩ | ⟨hstop, hgone⟩ := hend
    · obtain ⟨hstopped', hsocket', hsockets'⟩ | ⟨hstop', hgone'⟩ := hend'
      · exact Or.inl ⟨hstopped'.trans hstopped, hsocket'.trans hsocket, hsockets'.trans hsockets⟩
      · refine Or.inr ⟨hstop', fun c hc => ?_⟩
        exact List.mem_append_right _ (hgone' c (hsocket.trans hc))
    · exact Or.inr ⟨hkeep hstop, fun c hc => List.mem_append_left _ (hgone c hc)⟩

theorem send_called (s : Connection Φ) (out : Outbound Φ) : Called s (s.send out).1 := by
  unfold send
  split
  next c hc =>
    split
    · exact Called.of_note rfl rfl (by simp [Unread]) rfl rfl rfl
    · exact Called.refl s
  · exact Called.refl s

theorem say_called (s : Connection Φ) (frame : Φ) : Called s (s.say frame) := by
  by_cases hsend : ∃ c, s.socket = some c ∧ s.welcomed = true
  · obtain ⟨c, hc, hwelcome⟩ := hsend
    rw [say_sent hc hwelcome]
    exact Called.of_note rfl (List.append_assoc ..) (by simp [Unread]) rfl rfl rfl
  · rw [say_unsent hsend]
    exact Called.of_note rfl (List.append_assoc ..) (by simp [Unread]) rfl rfl rfl

theorem failures_unread (reason : Str) (pending : List Nat) :
    ∀ e ∈ failures (Φ := Φ) reason pending, Unread e := by
  intro e he
  obtain ⟨n, -, rfl⟩ := List.mem_map.1 he
  trivial

theorem stop_called (hw : Wired hooks s) (hp : Promised s.socket s) :
    Called s s.stop ∧ s.stop.stopped = true := by
  cases hc : s.socket with
  | none =>
    rw [stop_none hw hp hc]
    refine ⟨⟨rfl, [], (List.append_nil _).symm, by simp, Or.inr ⟨rfl, ?_⟩⟩, rfl⟩
    intro c hc'
    rw [hc] at hc'
    cases hc'
  | some c =>
    rw [stop_some hw hc, lose_eq (by exact hp.alarms)]
    refine ⟨⟨rfl, .destroyed c :: failures goodbye s.pending, ?_, ?_, Or.inr ⟨rfl, ?_⟩⟩, rfl⟩
    · simp
    · intro e he
      simp only [List.mem_cons] at he
      obtain rfl | he := he
      · trivial
      · exact failures_unread _ _ e he
    · intro d hd
      rw [hc] at hd
      cases hd
      simp

theorem send_stopped (s : Connection Φ) (out : Outbound Φ) : (s.send out).1.stopped = s.stopped := by
  unfold send
  split
  · split <;> rfl
  · rfl

theorem say_stopped (s : Connection Φ) (frame : Φ) : (s.say frame).stopped = s.stopped := by
  by_cases hsend : ∃ c, s.socket = some c ∧ s.welcomed = true
  · obtain ⟨c, hc, hwelcome⟩ := hsend
    rw [say_sent hc hwelcome]
  · rw [say_unsent hsend]

/-- **Step lemma** for one call. -/
theorem Good.call (h : Good hooks s) (x : Call Φ) :
    Good hooks (s.call x) ∧ Called s (s.call x) ∧
      (s.stopped = true → (s.call x).stopped = true) := by
  cases x with
  | send frame => exact ⟨h.send rfl, send_called s _, (send_stopped s _).trans⟩
  | say frame => exact ⟨h.say frame, say_called s frame, (say_stopped s frame).trans⟩
  | stop =>
    have hw : Wired hooks (s.note .stopped) := h.wired.note (by simp) (by simp) (by simp)
    have hp : Promised s.socket (s.note .stopped) := h.promised.note (by simp) (by simp)
    obtain ⟨hcalled, hstopped⟩ := stop_called hw hp
    refine ⟨good_stop (h.lawful.snoc trivial) hw hp, Called.trans ?_ hcalled fun _ => hstopped,
      fun _ => hstopped⟩
    exact Called.of_note rfl rfl (by simp [Unread]) rfl rfl rfl

theorem Good.calls (h : Good hooks s) (xs : List (Call Φ)) :
    Good hooks (s.calls xs) ∧ Called s (s.calls xs) ∧
      (s.stopped = true → (s.calls xs).stopped = true) := by
  induction xs generalizing s with
  | nil => exact ⟨h, Called.refl s, id⟩
  | cons x xs ih =>
    obtain ⟨hgood, hcalled, hkeep⟩ := h.call x
    obtain ⟨hgood', hcalled', hkeep'⟩ := ih hgood
    exact ⟨hgood', hcalled.trans hcalled' hkeep', fun hstop => hkeep' (hkeep hstop)⟩

/-! ## Losing and opening a socket -/

/-- A retry timer where there is no socket. -/
theorem Good.schedule (h : Good hooks s) (hsocket : s.socket = none) : Good hooks s.schedule := by
  unfold Connection.schedule
  split
  · exact h
  next hnot =>
    simp only [Bool.or_eq_true, not_or, Bool.not_eq_true, Option.isSome_eq_false_iff,
      Option.isNone_iff_eq_none] at hnot
    obtain ⟨hgo, hretry⟩ := hnot
    have htimers : s.timers = [] := by rw [h.wired.timers, hretry]; rfl
    refine ⟨h.lawful.snoc (h.going hgo), fun hgo => (h.going hgo).snoc (by simp) (by simp), ?_, ?_⟩
    · have hw : Wired hooks (s.note (.armed s.made)) := h.wired.note (by simp) (by simp) (by simp)
      refine ⟨hw.owned, hw.live, hw.idle, hw.welcomed, by simp [Connection.note, htimers],
        fun hne => absurd hsocket hne, ?_, hw.made, hw.wrote, hw.gone⟩
      intro hstop
      exact absurd (hgo.symm.trans hstop) (by simp)
    · have hp : Promised s.socket (s.note (.armed s.made)) := h.promised.note (by simp) (by simp)
      exact ⟨hp.alarms, hp.nodup, hp.said, hp.waiting, hp.settled, hp.resolved⟩

theorem schedule_called (s : Connection Φ) : Called s s.schedule := by
  unfold schedule
  split
  · exact Called.refl s
  · exact Called.of_note rfl rfl (by simp [Unread]) rfl rfl rfl

/-- `if (wasLive || !this.outageLogged)` -/
def outage (s : Connection Φ) (wasLive : Bool) (reason : Str) : Connection Φ :=
  if wasLive || !s.outageLogged then
    { s with outageLogged := true }.note (.logged (reason ++ str " — retrying every 5s"))
  else s

theorem Good.outage (h : Good hooks s) (wasLive : Bool) (reason : Str) :
    Good hooks (s.outage wasLive reason) := by
  unfold Connection.outage
  split
  · have hnote := h.logged (reason ++ str " — retrying every 5s")
    have hw := hnote.wired
    have hp := hnote.promised
    exact ⟨hnote.lawful, hnote.going, ⟨hw.owned, hw.live, hw.idle, hw.welcomed, hw.timers, hw.apart,
      hw.ended, hw.made, hw.wrote, hw.gone⟩,
      ⟨hp.alarms, hp.nodup, hp.said, hp.waiting, hp.settled, hp.resolved⟩⟩
  · exact h

theorem outage_called (s : Connection Φ) (wasLive : Bool) (reason : Str) :
    Called s (s.outage wasLive reason) := by
  unfold outage
  split
  · exact Called.of_note rfl rfl (by simp [Unread]) rfl rfl rfl
  · exact Called.refl s

variable (hooks) in
/-- The state that `onHubClosed` finds. -/
def broken (s : Connection Φ) (c : Nat) (reason : Str) : Connection Φ :=
  ((s.lose c reason).outage s.live reason).schedule

theorem down_eq {c : Nat} (hc : s.socket = some c) (phase : Phase) (reason : Str) :
    ({ s with sockets := s.sockets.set c phase }).down hooks c reason =
      if s.live then (s.broken c reason).calls (hooks.onHubClosed (s.broken c reason))
      else s.broken c reason := by
  have hlose : ({ s with sockets := s.sockets.set c phase }).lose c reason = s.lose c reason := by
    simp [lose, destroy, List.set_set]
  unfold down
  rw [if_neg (fun hne => hne hc)]
  have hbroken : (((({ s with sockets := s.sockets.set c phase }).lose c reason).outage s.live
      reason).schedule) = s.broken c reason := by
    rw [hlose]
    rfl
  rw [← hbroken]
  rfl

theorem Called.es {s t : Connection Φ} (h : Called s t) :
    ∃ es, t.log = s.log ++ es ∧ ∀ e ∈ es, Unread e := by
  obtain ⟨es, hlog, hes, -⟩ := h.log
  exact ⟨es, hlog, hes⟩

/-- A connection that is lost, by a signal or by a line that cannot be read. -/
theorem down_spec (h : Good hooks s) {c : Nat} (hc : s.socket = some c) (phase : Phase)
    (reason : Str) :
    let t := ({ s with sockets := s.sockets.set c phase }).down hooks c reason
    Good hooks t ∧ t.socket = none ∧ ∃ es, t.log = s.log ++ es ∧ (∀ e ∈ es, Unread e) ∧
      .destroyed c ∈ es := by
  have hlost := h.lose hc reason
  have hlostsocket : (s.lose c reason).socket = none := by rw [lose_eq h.promised.alarms]
  have hlostlog : (s.lose c reason).log = s.log ++ (.destroyed c :: failures reason s.pending) := by
    rw [lose_eq h.promised.alarms]
    simp
  have houtage := hlost.outage s.live reason
  have houtagesocket : ((s.lose c reason).outage s.live reason).socket = none := by
    unfold outage
    split <;> exact hlostsocket
  have hsched := houtage.schedule houtagesocket
  have hschedsocket : (s.broken c reason).socket = none := by
    unfold broken schedule
    split <;> exact houtagesocket
  obtain ⟨es, hlog, hes⟩ := (outage_called (s.lose c reason) s.live reason).es
  obtain ⟨es', hlog', hes'⟩ := (schedule_called ((s.lose c reason).outage s.live reason)).es
  have hbrokenlog : ∃ es, (s.broken c reason).log = s.log ++ es ∧ (∀ e ∈ es, Unread e) ∧
      .destroyed c ∈ es := by
    refine ⟨.destroyed c :: failures reason s.pending ++ es ++ es', ?_, ?_, by simp⟩
    · rw [broken, hlog', hlog, hlostlog]
      simp
    · intro e he
      simp only [List.mem_append, List.mem_cons] at he
      obtain ((rfl | he) | he) | he := he
      · trivial
      · exact failures_unread _ _ e he
      · exact hes e he
      · exact hes' e he
  obtain ⟨gs, hgs, hunread, hgone⟩ := hbrokenlog
  dsimp only
  rw [down_eq hc]
  split
  · obtain ⟨hgood, hcalled, -⟩ := Good.calls (s := s.broken c reason) hsched
      (hooks.onHubClosed (s.broken c reason))
    refine ⟨hgood, ?_, ?_⟩
    · obtain ⟨-, -, -, -, ⟨-, hsocket, -⟩ | ⟨hstop, -⟩⟩ := hcalled
      · rw [hsocket, hschedsocket]
      · exact (hgood.wired.ended hstop).1
    · obtain ⟨fs, hfs, hunread'⟩ := hcalled.es
      refine ⟨gs ++ fs, by rw [hfs, hgs, List.append_assoc], ?_, List.mem_append_left _ hgone⟩
      intro e he
      obtain he | he := List.mem_append.1 he
      · exact hunread e he
      · exact hunread' e he
  · exact ⟨hsched, hschedsocket, gs, hgs, hunread, hgone⟩

/-- A new socket, where there is none. -/
theorem Good.openSocket (h : Good hooks s) (hsocket : s.socket = none) (hretry : s.retry = none) :
    Good hooks s.openSocket := by
  unfold Connection.openSocket
  split
  · exact h
  next hgo =>
    rw [Bool.not_eq_true] at hgo
    have hpending : s.pending = [] := Promised.nothing (hsocket ▸ h.promised)
    have hold : ∀ c < s.sockets.length, (s.sockets ++ [Phase.connecting])[c]? = s.sockets[c]? :=
      fun c hc => List.getElem?_append_left hc
    have hfresh : .opened s.sockets.length ∉ s.log := fun hin =>
      absurd ((h.wired.made _).1 hin) (Nat.lt_irrefl _)
    obtain ⟨hlive, hwelcomed⟩ := h.wired.idle hsocket
    have htimers : s.timers = [] := by rw [h.wired.timers, hretry]; rfl
    refine ⟨h.lawful.snoc ⟨h.going hgo, hfresh⟩,
      fun _ => (h.going hgo).snoc (by simp) (by simp), ?_, ?_⟩
    · constructor
      · intro c
        simp only [Connection.note, Option.some.injEq]
        obtain hlt | rfl | hgt := Nat.lt_trichotomy c s.sockets.length
        · rw [Alive, hold c hlt]
          refine ⟨fun heq => absurd heq.symm (Nat.ne_of_lt hlt), fun halive => ?_⟩
          exact absurd halive (h.wired.vacant hsocket c)
        · exact ⟨fun _ => Or.inl (by simp), fun _ => rfl⟩
        · have hnone : (s.sockets ++ [Phase.connecting])[c]? = none := by
            rw [List.getElem?_eq_none_iff, List.length_append, List.length_singleton]
            omega
          rw [Alive, hnone]
          refine ⟨fun heq => absurd heq (Nat.ne_of_lt hgt), ?_⟩
          rintro (hconnecting | hopened)
          · cases hconnecting
          · cases hopened
      · intro c hc
        simp only [Connection.note, Option.some.injEq] at hc
        subst hc
        simp [Connection.note, hlive]
      · intro hnone
        cases hnone
      · intro c _ hwelcome
        exact absurd (hwelcomed.symm.trans hwelcome) (by simp)
      · exact h.wired.timers
      · exact fun _ => hretry
      · intro hstop
        exact absurd (hgo.symm.trans hstop) (by simp)
      · intro c
        simp only [Connection.note, List.mem_append, List.mem_singleton, Entry.opened.injEq,
          List.length_append, List.length_singleton]
        rw [h.wired.made c]
        omega
      · intro c out hc
        simp only [Connection.note, List.mem_append, List.mem_singleton, reduceCtorEq, or_false,
          List.length_append, List.length_singleton] at hc ⊢
        obtain ⟨hlt, hphase⟩ := h.wired.wrote c out hc
        exact ⟨Nat.lt_succ_of_lt hlt, by rwa [hold c hlt]⟩
      · intro c hc
        simp only [Connection.note, List.mem_append, List.mem_singleton, reduceCtorEq, or_false,
          List.length_append, List.length_singleton] at hc ⊢
        obtain ⟨hlt, hdead⟩ := h.wired.gone c hc
        exact ⟨Nat.lt_succ_of_lt hlt, by rwa [Alive, hold c hlt]⟩
    · have hnote : Promised s.socket (s.note (.opened s.sockets.length)) :=
        h.promised.note (by simp) (by simp)
      refine ⟨hnote.alarms, hnote.nodup, hnote.said, ?_, hnote.settled, hnote.resolved⟩
      intro n hn
      simp only [Connection.note] at hn
      rw [hpending] at hn
      cases hn

/-- The socket connects, and the hello goes out. -/
theorem Good.onConnect (h : Good hooks s) {c : Nat} (hconnecting : s.sockets[c]? = some .connecting) :
    Good hooks ({ s with sockets := s.sockets.set c .opened }.onConnect hooks c) := by
  have hc : s.socket = some c := (h.wired.owned c).2 (Or.inl hconnecting)
  have hgo := h.going (h.wired.running hc)
  have hlt := h.wired.lt hc
  have hself : (s.sockets.set c .opened)[c]? = some Phase.opened := by
    simp [hlt]
  have hother : ∀ d, d ≠ c → (s.sockets.set c .opened)[d]? = s.sockets[d]? := fun d hd =>
    List.getElem?_set_ne (Ne.symm hd)
  have hlogged : Lawful (law hooks) (s.log ++
      [.logged (str "connected to " ++ hooks.socketPath)]) := h.lawful.snoc trivial
  have hgoing : Going hooks (s.log ++ [.logged (str "connected to " ++ hooks.socketPath)]) :=
    hgo.snoc (by simp) (by simp)
  have hsilent : ∀ o, .wrote c o ∉ s.log ++ [.logged (str "connected to " ++ hooks.socketPath)] := by
    intro o ho
    rw [List.mem_append, List.mem_singleton] at ho
    obtain ho | ho := ho
    · exact (h.wired.wrote c o ho).2 hconnecting
    · cases ho
  refine ⟨hlogged.snoc ⟨hgoing, hsilent⟩, fun _ => hgoing.snoc (by simp) (by simp), ?_, ?_⟩
  · constructor
    · intro d
      simp only [Connection.onConnect, Connection.note, Connection.write]
      by_cases hd : d = c
      · subst hd
        exact ⟨fun _ => Or.inr hself, fun _ => hc⟩
      · rw [Alive, hother d hd]
        exact h.wired.owned d
    · intro d hd
      simp only [Connection.onConnect, Connection.note, Connection.write] at hd ⊢
      rw [hc] at hd
      cases hd
      simp [hself]
    · intro hnone
      simp only [Connection.onConnect, Connection.note, Connection.write] at hnone
      rw [hc] at hnone
      cases hnone
    · intro d _ hwelcome
      cases hwelcome
    · exact h.wired.timers
    · exact h.wired.apart
    · exact h.wired.ended
    · simpa [Connection.onConnect, Connection.note, Connection.write] using h.wired.made
    · intro d out hd
      simp only [Connection.onConnect, Connection.note, Connection.write, List.mem_append,
        List.mem_singleton, reduceCtorEq, or_false, Entry.wrote.injEq, List.length_set] at hd ⊢
      by_cases hdc : d = c
      · subst hdc
        exact ⟨hlt, by simp [hself]⟩
      · rw [hother d hdc]
        exact h.wired.wrote d out (hd.resolve_right fun heq => hdc heq.1)
    · intro d hd
      simp only [Connection.onConnect, Connection.note, Connection.write, List.mem_append,
        List.mem_singleton, reduceCtorEq, or_false, List.length_set] at hd ⊢
      obtain ⟨hdlt, hdead⟩ := h.wired.gone d hd
      have hdc : d ≠ c := fun heq => hdead (Or.inl (heq ▸ hconnecting))
      exact ⟨hdlt, by rwa [Alive, hother d hdc]⟩
  · have hnote : Promised s.socket ((s.note (.logged (str "connected to " ++ hooks.socketPath))).note
        (.wrote c (.hello hooks.name hooks.kind hooks.role))) :=
      (h.promised.note (by simp) (by simp)).note (by simp) (by simp)
    exact ⟨hnote.alarms, hnote.nodup, hnote.said, hnote.waiting, hnote.settled, hnote.resolved⟩

end Connection

end Moot.Opencode
