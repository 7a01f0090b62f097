import Moot.Opencode.Wiring

/-!
# The life of the connection

Proved here: `connection_lawful`.  Whatever the order of signals, each `say` is
answered once and with its own answer, nothing but the hello goes out before the
welcome and nothing after the end, there is one socket or one retry timer, and each
connection's lines are dispatched once and in order.
-/

namespace Moot.Opencode
open Py Trace

namespace Connection

variable {Φ : Type} {hooks : Hooks Φ} {s : Connection Φ}

/-! ## Lines -/

/-- A line of a live connection that is no refusal. -/
theorem Good.dispatched (h : Good hooks s) {c : Nat} (hc : s.socket = some c) {line : Str}
    (hrefused : Refuses hooks line → WelcomedOn hooks s.log c) :
    Good hooks (s.note (.dispatched c line)) := by
  have hgo := h.going (h.wired.running hc)
  refine ⟨h.lawful.snoc ⟨hgo.1, ?_⟩, fun _ => hgo.snoc (by simp) ?_,
    h.wired.note (by simp) (by simp) (by simp), h.promised.note (by simp) (by simp)⟩
  · exact fun hgone => (h.wired.gone c hgone).2 ((h.wired.owned c).1 hc)
  · rintro d l ⟨⟩
    exact hrefused

/-- The welcome. -/
theorem Good.welcome (h : Good hooks s) {c : Nat} (hc : s.socket = some c)
    (hopen : s.sockets[c]? = some .opened) (hread : WelcomedOn hooks s.log c) :
    Good hooks { s with welcomed := true } := by
  have hw := h.wired
  have hp := h.promised
  refine ⟨h.lawful, h.going, ⟨hw.owned, hw.live, ?_, ?_, hw.timers, hw.apart, hw.ended, hw.made,
    hw.wrote, hw.gone⟩, ⟨hp.alarms, hp.nodup, hp.said, hp.waiting, hp.settled, hp.resolved⟩⟩
  · intro hnone
    exact absurd (hc.symm.trans hnone) (by simp)
  · intro d hd _
    have hcd : c = d := Option.some.inj (hc.symm.trans hd)
    subst hcd
    exact ⟨(hw.live c hc).2 hopen, hread⟩

/-- The hub's answer to a say, which is the last line that was read. -/
theorem Good.answer (h : Good hooks s) {c : Nat} (hc : s.socket = some c) {line : Str}
    {f : Inbound Φ} (hparse : hooks.parse line = .ok f)
    (hrefused : Refuses hooks line → WelcomedOn hooks s.log c) {n : Nat} (hn : n ∈ s.pending)
    (hseq : f.seq = some (n : Int)) :
    Good hooks ({ s.note (.dispatched c line) with
      pending := s.pending.erase n }.settle n (.hub f)) := by
  have hnote := h.dispatched hc hrefused
  obtain ⟨hsaid, hnone, d, frame, hd, hwrote⟩ := h.promised.waiting n hn
  have hcd : c = d := Option.some.inj (hc.symm.trans hd)
  subst hcd
  refine ⟨?_, ?_, ?_, ?_⟩
  · refine hnote.lawful.snoc ⟨List.mem_append_left _ hsaid, ?_, hseq, ?_⟩
    · intro a ha
      rw [Connection.note, List.mem_append, List.mem_singleton] at ha
      obtain ha | ha := ha
      · exact hnone a ha
      · cases ha
    · exact ⟨s.log, c, line, frame, rfl, hparse, hwrote⟩
  · exact fun hgo => (hnote.going hgo).snoc (by simp) (by simp)
  · have hw := Wired.note hnote.wired (e := .resolved n (.hub f)) (by simp) (by simp) (by simp)
    exact Wired.says hw s.seq (s.pending.erase n) (s.alarms.erase n)
  · exact hnote.promised.resolve hn (.hub f)

/-- **Step lemma** for one line: everything stays in order, and either the connection goes
on or it is given up here. -/
theorem dispatch_spec (h : Good hooks s) {c : Nat} (hc : s.socket = some c)
    (hopen : s.sockets[c]? = some .opened) (line : Str) :
    Good hooks (s.dispatch hooks c line).1 ∧
      Called (s.note (.dispatched c line)) (s.dispatch hooks c line).1 := by
  unfold dispatch
  dsimp only
  split
  next thrown hparse =>
    have hrefused : Refuses hooks line → WelcomedOn hooks s.log c := by
      rintro ⟨f, hf, -⟩
      rw [hparse] at hf
      cases hf
    exact ⟨h.dispatched hc hrefused, Called.refl _⟩
  next f hparse =>
    have herr : Refuses hooks line → f.t = some (str "err") := by
      rintro ⟨g, hg, ht⟩
      rw [hparse] at hg
      cases hg
      exact ht
    split
    next hping =>
      have hnote : Good hooks (s.note (.dispatched c line)) := h.dispatched hc fun hrefused =>
        absurd (hping.symm.trans (herr hrefused)) (by decide)
      exact ⟨hnote.send rfl, send_called _ _⟩
    split
    next hwelcome =>
      have hnote : Good hooks (s.note (.dispatched c line)) := h.dispatched hc fun hrefused =>
        absurd (hwelcome.symm.trans (herr hrefused)) (by decide)
      have hread : WelcomedOn hooks (s.note (.dispatched c line)).log c :=
        ⟨line, by simp [Connection.note], f, hparse, hwelcome⟩
      have hgood := hnote.welcome hc hopen hread
      obtain ⟨hcalls, hcalled, hkeep⟩ := hgood.calls (hooks.onWelcome _ f).1
      refine ⟨hcalls, Called.trans ?_ hcalled hkeep⟩
      exact Called.of_note rfl (List.append_nil _).symm (by simp) rfl rfl rfl
    split
    next hwelcome hrefused =>
      have hw : Wired hooks (s.note (.dispatched c line)) :=
        h.wired.note (by simp) (by simp) (by simp)
      have hp : Promised s.socket (s.note (.dispatched c line)) :=
        h.promised.note (by simp) (by simp)
      have hgo := h.going (h.wired.running hc)
      have hlaw : Lawful (law hooks) (s.note (.dispatched c line)).log :=
        h.lawful.snoc ⟨hgo.1, fun hgone => (h.wired.gone c hgone).2 ((h.wired.owned c).1 hc)⟩
      have hw' := hw.note (e := .logged (str "hello rejected: " ++ f.code ++ str " · " ++ f.detail ++
        str " — the moot plugin is inert for this process")) (by simp) (by simp) (by simp)
      have hp' := hp.note (e := .logged (str "hello rejected: " ++ f.code ++ str " · " ++ f.detail ++
        str " — the moot plugin is inert for this process")) (by simp) (by simp)
      obtain ⟨hcalled, hstopped⟩ := stop_called hw' hp'
      refine ⟨good_stop (hlaw.snoc trivial) hw' hp', Called.trans ?_ hcalled fun _ => hstopped⟩
      exact Called.of_note rfl rfl (by simp [Unread]) rfl rfl rfl
    next hwelcome hnotrefused =>
      have hrefused : Refuses hooks line → WelcomedOn hooks s.log c := by
        intro hrefuse
        have hwelcomed : s.welcomed = true := by
          rw [← Bool.not_eq_false]
          exact fun hfalse => hnotrefused ⟨hfalse, herr hrefuse⟩
        exact (h.wired.welcomed c hc hwelcomed).2
      split
      next n hfind =>
        have hseq : f.seq = some (n : Int) := by
          simpa using List.find?_some hfind
        refine ⟨h.answer hc hparse hrefused (List.mem_of_find?_eq_some hfind) hseq, ?_⟩
        exact Called.of_note rfl rfl (by simp [Unread]) rfl rfl rfl
      · obtain ⟨hcalls, hcalled, -⟩ := (h.dispatched hc hrefused).calls (hooks.onFrame _ f).1
        exact ⟨hcalls, hcalled⟩

/-! ## Reading -/

/-- What the socket sent. -/
def receivedOn (log : List (Entry Φ)) (c : Nat) : Str :=
  log.flatMap fun
    | .received d chunk => if d = c then chunk else []
    | _ => []

/-- The lines of the socket that were dispatched. -/
def dispatchedOn (log : List (Entry Φ)) (c : Nat) : List Str :=
  log.filterMap fun
    | .dispatched d line => if d = c then some line else none
    | _ => none

/-- The complete lines that are not blank. -/
def linesOf (text : Str) : List Str :=
  (Framing.pieces newline text).filter fun line => !isBlank line

/-- The connection was given up while its last line was dispatched. -/
def GivenUpAt (log : List (Entry Φ)) (c : Nat) : Prop :=
  ∃ pre line post, log = pre ++ .dispatched c line :: post ∧ .destroyed c ∈ post ∧
    receivedOn post c = [] ∧ dispatchedOn post c = []

/-- How far the connection was read. -/
structure Read (s : Connection Φ) (c : Nat) : Prop where
  lines : dispatchedOn s.log c <+: linesOf (receivedOn s.log c)
  all : s.socket = some c → dispatchedOn s.log c = linesOf (receivedOn s.log c)
  buffer : s.socket = some c → s.sockets[c]? = some .opened →
    s.buffer = Framing.remainder newline (receivedOn s.log c)
  cut : dispatchedOn s.log c = linesOf (receivedOn s.log c) ∨ GivenUpAt s.log c
  fresh : s.sockets.length ≤ c ∨ s.sockets[c]? = some .connecting →
    receivedOn s.log c = [] ∧ dispatchedOn s.log c = []

theorem receivedOn_append (log es : List (Entry Φ)) (c : Nat) :
    receivedOn (log ++ es) c = receivedOn log c ++ receivedOn es c := List.flatMap_append

theorem dispatchedOn_append (log es : List (Entry Φ)) (c : Nat) :
    dispatchedOn (log ++ es) c = dispatchedOn log c ++ dispatchedOn es c := List.filterMap_append

/-- An entry that reads nothing from the socket. -/
def Elsewhere (c : Nat) : Entry Φ → Prop
  | .received d _ => d ≠ c
  | .dispatched d _ => d ≠ c
  | _ => True

theorem Unread.elsewhere {e : Entry Φ} (h : Unread e) (c : Nat) : Elsewhere c e := by
  cases e <;> trivial

theorem received_elsewhere {es : List (Entry Φ)} {c : Nat} (hes : ∀ e ∈ es, Elsewhere c e) :
    receivedOn es c = [] := by
  rw [receivedOn, List.flatMap_eq_nil_iff]
  intro e he
  have := hes e he
  cases e <;> simp_all [Elsewhere]

theorem dispatched_elsewhere {es : List (Entry Φ)} {c : Nat} (hes : ∀ e ∈ es, Elsewhere c e) :
    dispatchedOn es c = [] := by
  rw [dispatchedOn, List.filterMap_eq_nil_iff]
  intro e he
  have := hes e he
  cases e <;> simp_all [Elsewhere]

theorem GivenUpAt.append {log es : List (Entry Φ)} {c : Nat} (h : GivenUpAt log c)
    (hes : ∀ e ∈ es, Elsewhere c e) : GivenUpAt (log ++ es) c := by
  obtain ⟨pre, line, post, rfl, hgone, hreceived, hdispatched⟩ := h
  refine ⟨pre, line, post ++ es, by simp, List.mem_append_left _ hgone, ?_, ?_⟩
  · rw [receivedOn_append, hreceived, received_elsewhere hes, List.append_nil]
  · rw [dispatchedOn_append, hdispatched, dispatched_elsewhere hes, List.append_nil]

/-- A step in which nothing is read from the socket. -/
theorem Read.elsewhere {s t : Connection Φ} {c : Nat} (h : Read s c) {es : List (Entry Φ)}
    (hlog : t.log = s.log ++ es) (hes : ∀ e ∈ es, Elsewhere c e)
    (hall : t.socket = some c → dispatchedOn s.log c = linesOf (receivedOn s.log c) ∧
      (t.sockets[c]? = some .opened → t.buffer = Framing.remainder newline (receivedOn s.log c)))
    (hfresh : t.sockets.length ≤ c ∨ t.sockets[c]? = some .connecting →
      s.sockets.length ≤ c ∨ s.sockets[c]? = some .connecting) : Read t c := by
  have hreceived : receivedOn t.log c = receivedOn s.log c := by
    rw [hlog, receivedOn_append, received_elsewhere hes, List.append_nil]
  have hdispatched : dispatchedOn t.log c = dispatchedOn s.log c := by
    rw [hlog, dispatchedOn_append, dispatched_elsewhere hes, List.append_nil]
  constructor
  · rw [hreceived, hdispatched]
    exact h.lines
  · rw [hreceived, hdispatched]
    exact fun hc => (hall hc).1
  · rw [hreceived]
    exact fun hc => (hall hc).2
  · rw [hreceived, hdispatched, hlog]
    exact h.cut.imp_right fun hgiven => hgiven.append hes
  · rw [hreceived, hdispatched]
    exact fun hc => h.fresh (hfresh hc)

theorem linesOf_none {buffer : Str} (h : Framing.cut newline buffer = none) :
    linesOf buffer = [] := by
  rw [linesOf, Framing.pieces_of_none h, List.filter_nil]

theorem linesOf_blank {buffer line rest : Str}
    (h : Framing.cut newline buffer = some (line, rest)) (hblank : isBlank line = true) :
    linesOf buffer = linesOf rest := by
  rw [linesOf, Framing.pieces_of_some h, List.filter_cons_of_neg (by simp [hblank]), linesOf]

theorem linesOf_cons {buffer line rest : Str}
    (h : Framing.cut newline buffer = some (line, rest)) (hblank : isBlank line = false) :
    linesOf buffer = line :: linesOf rest := by
  rw [linesOf, Framing.pieces_of_some h, List.filter_cons_of_pos (by simp [hblank]), linesOf]

/-- A chunk more. -/
theorem linesOf_append (text chunk : Str) :
    linesOf (text ++ chunk) =
      linesOf text ++ linesOf (Framing.remainder newline text ++ chunk) := by
  rw [linesOf, Framing.pieces_append, List.filter_append, linesOf, linesOf]

theorem Good.buffer (h : Good hooks s) (buffer : Str) : Good hooks { s with buffer } := by
  have hw := h.wired
  have hp := h.promised
  exact ⟨h.lawful, h.going, ⟨hw.owned, hw.live, hw.idle, hw.welcomed, hw.timers, hw.apart,
    hw.ended, hw.made, hw.wrote, hw.gone⟩,
    ⟨hp.alarms, hp.nodup, hp.said, hp.waiting, hp.settled, hp.resolved⟩⟩

/-- An entry of the reading of socket `c`. -/
def ReadsOnly (c : Nat) : Entry Φ → Prop
  | .received .. => False
  | .dispatched d _ => d = c
  | _ => True

theorem Unread.readsOnly {e : Entry Φ} (h : Unread e) (c : Nat) : ReadsOnly c e := by
  cases e <;> trivial

/-- What the loop has read when it ends: everything, or what came up to the line at which
the connection was given up. -/
structure ReadUp (s t : Connection Φ) (c : Nat) (text : Str) : Prop where
  log : ∃ es, t.log = s.log ++ es ∧ ∀ e ∈ es, ReadsOnly c e
  lines : dispatchedOn t.log c <+: linesOf text
  ends : t.socket = some c ∧ t.sockets = s.sockets ∧
      t.buffer = Framing.remainder newline text ∧ dispatchedOn t.log c = linesOf text ∨
    t.socket = none ∧ GivenUpAt t.log c

theorem ReadUp.after {s t u : Connection Φ} {c : Nat} {text : Str} (h : ReadUp t u c text)
    {es : List (Entry Φ)} (hlog : t.log = s.log ++ es) (hes : ∀ e ∈ es, ReadsOnly c e)
    (hsockets : t.sockets = s.sockets) : ReadUp s u c text := by
  obtain ⟨⟨gs, hgs, hreads⟩, hlines, hends⟩ := h
  refine ⟨⟨es ++ gs, by rw [hgs, hlog, List.append_assoc], ?_⟩, hlines, by rwa [hsockets] at hends⟩
  intro e he
  obtain he | he := List.mem_append.1 he
  · exact hes e he
  · exact hreads e he

theorem receivedOn_unread {es : List (Entry Φ)} (c : Nat) (hes : ∀ e ∈ es, Unread e) :
    receivedOn es c = [] ∧ dispatchedOn es c = [] :=
  ⟨received_elsewhere fun e he => (hes e he).elsewhere c,
    dispatched_elsewhere fun e he => (hes e he).elsewhere c⟩

/-- A line that cannot be read ends the connection. -/
theorem unreadable_live (h : Good hooks s) {c : Nat} (hc : s.socket = some c)
    (hopen : s.sockets[c]? = some .opened) (thrown : Str) :
    Good hooks (s.unreadable hooks thrown) ∧ (s.unreadable hooks thrown).socket = none ∧
      ∃ es, (s.unreadable hooks thrown).log = s.log ++ es ∧ (∀ e ∈ es, Unread e) ∧
        .destroyed c ∈ es := by
  have hnoted := h.logged (unreadableNotice thrown)
  have hset : s.sockets.set c .opened = s.sockets := by
    obtain ⟨hlt, hget⟩ := List.getElem?_eq_some_iff.1 hopen
    rw [← hget, List.set_getElem_self]
  obtain ⟨hgood, hnone, es, hes, hunread, hgone⟩ :=
    down_spec hnoted hc .opened (str "the plugin could not read a frame")
  simp only [Connection.note, hset] at hgood hnone hes
  have hdown : s.unreadable hooks thrown = (s.note (.logged (unreadableNotice thrown))).down hooks c
      (str "the plugin could not read a frame") := by
    unfold unreadable
    dsimp only
    split
    next d hd =>
      have hcd : c = d := Option.some.inj (hc.symm.trans hd)
      rw [hcd]
    next hnone => exact absurd (hc.symm.trans hnone) (by simp)
  rw [hdown]
  refine ⟨hgood, hnone, .logged (unreadableNotice thrown) :: es, ?_, ?_,
    List.mem_cons_of_mem _ hgone⟩
  · rw [List.append_cons]
    exact hes
  · intro e he
    obtain rfl | he := List.mem_cons.1 he
    · trivial
    · exact hunread e he

theorem unreadable_none (hnone : s.socket = none) (thrown : Str) :
    s.unreadable hooks thrown = s.note (.logged (unreadableNotice thrown)) := by
  unfold unreadable
  dsimp only
  split
  next c hc => exact absurd (hnone.symm.trans hc) (by simp)
  · rfl

/-- **Loop lemma.**  The loop dispatches the complete lines of the buffer, in order. -/
theorem readLines_spec {c : Nat} (text buffer : Str) {s : Connection Φ}
    (h : Good hooks s) (hc : s.socket = some c) (hopen : s.sockets[c]? = some .opened)
    (hbuffer : s.buffer = buffer)
    (hlines : dispatchedOn s.log c ++ linesOf buffer = linesOf text)
    (hrest : Framing.remainder newline buffer = Framing.remainder newline text) :
    Good hooks (s.readLines hooks c buffer) ∧ ReadUp s (s.readLines hooks c buffer) c text := by
  induction hlen : buffer.length using Nat.strongRecOn generalizing s buffer with
  | ind n ih =>
    have hgo := h.wired.running hc
    rw [readLines, if_neg (by simp [hgo])]
    split
    next hcut =>
      refine ⟨h, ⟨[], by simp, by simp⟩, ?_, Or.inl ⟨hc, rfl, ?_, ?_⟩⟩
      · rw [← hlines]
        exact List.prefix_append _ _
      · rw [← hrest, Framing.remainder_of_none hcut, hbuffer]
      · rw [← hlines, linesOf_none hcut, List.append_nil]
    next line rest hcut =>
      have hshort : rest.length < n := hlen ▸ Framing.cut_length hcut
      have hrest' : Framing.remainder newline rest = Framing.remainder newline text := by
        rw [← hrest, Framing.remainder_of_some hcut]
      dsimp only
      split
      next hblank =>
        rw [linesOf_blank hcut hblank] at hlines
        obtain ⟨hgood, hread⟩ := ih rest.length hshort rest (h.buffer rest) hc hopen rfl hlines
          hrest' rfl
        exact ⟨hgood, hread.after (List.append_nil _).symm (by simp) rfl⟩
      next hblank =>
        rw [Bool.not_eq_true] at hblank
        rw [linesOf_cons hcut hblank] at hlines
        obtain ⟨hgood, hbuf, es, hes, hunread, hends⟩ :=
          dispatch_spec (h.buffer rest) hc hopen line
        have hlog : ∀ t : Connection Φ, t.log = s.log ++ [.dispatched c line] ++ es →
            dispatchedOn t.log c = dispatchedOn s.log c ++ [line] := by
          intro t ht
          rw [ht, dispatchedOn_append, dispatchedOn_append, (receivedOn_unread c hunread).2]
          simp [dispatchedOn]
        have hprefix : dispatchedOn s.log c ++ [line] <+: linesOf text := by
          rw [← hlines]
          exact ⟨linesOf rest, by simp⟩
        have hreads : ∀ e ∈ [Entry.dispatched c line] ++ es, ReadsOnly c e := by
          intro e he
          obtain he | he := List.mem_append.1 he
          · rw [List.mem_singleton.1 he]
            rfl
          · exact (hunread e he).readsOnly c
        generalize ({ s with buffer := rest } : Connection Φ).dispatch hooks c line = r at *
        obtain ⟨t, thrown⟩ := r
        dsimp only at hgood hbuf hes hends ⊢
        have hes' : t.log = s.log ++ ([.dispatched c line] ++ es) := by
          rw [hes]
          exact List.append_assoc ..
        obtain ⟨hstopped, hsocket, hsockets⟩ | ⟨hstop, hgone⟩ := hends
        · have hc' : t.socket = some c := hsocket.trans hc
          have hopen' : t.sockets[c]? = some .opened := by rw [hsockets]; exact hopen
          cases thrown with
          | none =>
            have hlines' : dispatchedOn t.log c ++ linesOf rest = linesOf text := by
              rw [hlog t hes, List.append_assoc]
              exact hlines
            obtain ⟨hgood', hread⟩ := ih rest.length hshort rest hgood hc' hopen' hbuf hlines'
              hrest' rfl
            exact ⟨hgood', hread.after hes' hreads hsockets⟩
          | some thrown =>
            dsimp only
            obtain ⟨hgood', hnone, gs, hgs, hunread', hgone⟩ := unreadable_live hgood hc' hopen' thrown
            have hall : ∀ e ∈ es ++ gs, Unread e := by
              intro e he
              obtain he | he := List.mem_append.1 he
              · exact hunread e he
              · exact hunread' e he
            have hgs' : (t.unreadable hooks thrown).log =
                s.log ++ ([.dispatched c line] ++ (es ++ gs)) := by
              rw [hgs, hes']
              simp
            refine ⟨hgood', ⟨_, hgs', ?_⟩, ?_, Or.inr ⟨hnone, s.log, line, es ++ gs, ?_, ?_,
              (receivedOn_unread c hall).1, (receivedOn_unread c hall).2⟩⟩
            · intro e he
              obtain he | he := List.mem_append.1 he
              · exact hreads e (List.mem_append_left _ he)
              · exact (hall e he).readsOnly c
            · rw [hgs, dispatchedOn_append, hlog t hes, (receivedOn_unread c hunread').2,
                List.append_nil]
              exact hprefix
            · simpa using hgs'
            · exact List.mem_append_right _ hgone
        · have hnone : t.socket = none := (hgood.wired.ended hstop).1
          have hgiven : GivenUpAt t.log c :=
            ⟨s.log, line, es, by simpa using hes', hgone c hc, (receivedOn_unread c hunread).1,
              (receivedOn_unread c hunread).2⟩
          cases thrown with
          | none =>
            dsimp only
            rw [readLines, if_pos hstop]
            refine ⟨hgood, ⟨_, hes', hreads⟩, ?_, Or.inr ⟨hnone, hgiven⟩⟩
            rw [hlog t hes]
            exact hprefix
          | some thrown =>
            dsimp only
            rw [unreadable_none hnone]
            refine ⟨hgood.logged _, ⟨([.dispatched c line] ++ es) ++
              [.logged (unreadableNotice thrown)], ?_, ?_⟩, ?_, ?_⟩
            · rw [Connection.note, hes']
              simp
            · intro e he
              obtain he | he := List.mem_append.1 he
              · exact hreads e he
              · rw [List.mem_singleton.1 he]
                trivial
            · rw [Connection.note, dispatchedOn_append, hlog t hes]
              simpa [dispatchedOn] using hprefix
            · exact Or.inr ⟨hnone, hgiven.append (by simp [Elsewhere])⟩

/-! ## Every signal -/

theorem received_readsOnly {es : List (Entry Φ)} {c : Nat} (hes : ∀ e ∈ es, ReadsOnly c e)
    (d : Nat) : receivedOn es d = [] := by
  rw [receivedOn, List.flatMap_eq_nil_iff]
  intro e he
  have := hes e he
  cases e <;> simp_all [ReadsOnly]

theorem ReadsOnly.elsewhere {e : Entry Φ} {c d : Nat} (h : ReadsOnly c e) (hd : d ≠ c) :
    Elsewhere d e := by
  cases e with
  | received d' chunk => exact absurd h id
  | dispatched d' line =>
    intro heq
    exact hd (heq.symm.trans h)
  | _ => trivial

/-- What is not there yet was not there before. -/
theorem fresh_back {t : Connection Φ} (hs : Good hooks s) (ht : Good hooks t)
    {es : List (Entry Φ)} (hlog : t.log = s.log ++ es) {d : Nat}
    (hsame : t.socket = some d → t.sockets[d]? = s.sockets[d]?)
    (hfresh : t.sockets.length ≤ d ∨ t.sockets[d]? = some .connecting) :
    s.sockets.length ≤ d ∨ s.sockets[d]? = some .connecting := by
  obtain hlen | hconnecting := hfresh
  · refine Or.inl (Nat.le_of_not_lt fun hlt => ?_)
    have hold := (hs.wired.made d).2 hlt
    have hnew := (ht.wired.made d).1 (by rw [hlog]; exact List.mem_append_left _ hold)
    omega
  · exact Or.inr (hsame ((ht.wired.owned d).2 (Or.inl hconnecting)) ▸ hconnecting)

variable (hooks) in
/-- The invariant of the runs. -/
structure Held (s : Connection Φ) : Prop where
  good : Good hooks s
  read : ∀ c, Read s c

/-- A step that reads nothing, and leaves the socket or loses it. -/
theorem Held.unread (h : Held hooks s) {t : Connection Φ} (ht : Good hooks t)
    (es : List (Entry Φ)) (hlog : t.log = s.log ++ es) (hes : ∀ e ∈ es, Unread e)
    (hsocket : ∀ c, t.socket = some c →
      s.socket = some c ∧ t.sockets[c]? = s.sockets[c]? ∧ t.buffer = s.buffer) : Held hooks t := by
  refine ⟨ht, fun c => ?_⟩
  refine (h.read c).elsewhere hlog (fun e he => (hes e he).elsewhere c) ?_ ?_
  · intro hc
    obtain ⟨hsame, hphase, hbuffer⟩ := hsocket c hc
    refine ⟨(h.read c).all hsame, fun hopen => ?_⟩
    rw [hbuffer]
    exact (h.read c).buffer hsame (hphase ▸ hopen)
  · exact fresh_back h.good ht hlog fun hc => (hsocket c hc).2.1

theorem Held.connect (h : Held hooks s) {c : Nat} (hconnecting : s.sockets[c]? = some .connecting) :
    Held hooks ({ s with sockets := s.sockets.set c .opened }.onConnect hooks c) := by
  have ht := h.good.onConnect hconnecting
  have hc : s.socket = some c := (h.good.wired.owned c).2 (Or.inl hconnecting)
  refine ⟨ht, fun d => ?_⟩
  have hlog : ({ s with sockets := s.sockets.set c .opened }.onConnect hooks c).log = s.log ++
      [.logged (str "connected to " ++ hooks.socketPath),
        .wrote c (.hello hooks.name hooks.kind hooks.role)] := by
    simp [Connection.onConnect, Connection.note, Connection.write]
  refine (h.read d).elsewhere hlog (by simp [Elsewhere]) ?_ ?_
  · intro hd
    have hcd : c = d := Option.some.inj (hc.symm.trans hd)
    subst hcd
    obtain ⟨hreceived, hdispatched⟩ := (h.read c).fresh (Or.inr hconnecting)
    rw [hreceived, hdispatched]
    refine ⟨?_, fun _ => ?_⟩
    · rw [linesOf, Framing.pieces_nil, List.filter_nil]
    · rw [Framing.remainder_nil]
      rfl
  · refine fun hfresh => ?_
    by_cases hdc : d = c
    · exact Or.inr (hdc ▸ hconnecting)
    · refine fresh_back h.good ht hlog (fun hd => ?_) hfresh
      exact absurd (Option.some.inj (hd.symm.trans hc)) hdc

theorem Held.openSocket (h : Held hooks s) (hsocket : s.socket = none) (hretry : s.retry = none) :
    Held hooks s.openSocket := by
  have ht := h.good.openSocket hsocket hretry
  unfold Connection.openSocket at ht ⊢
  split at ht
  next hstop => rwa [if_pos hstop]
  next hgo =>
    rw [if_neg hgo]
    refine ⟨ht, fun d => ?_⟩
    have hlog : ({ s with
        sockets := s.sockets ++ [Phase.connecting]
        socket := some s.sockets.length }.note (.opened s.sockets.length)).log =
          s.log ++ [.opened s.sockets.length] := rfl
    by_cases hnew : d = s.sockets.length
    · obtain ⟨hreceived, hdispatched⟩ := (h.read d).fresh (Or.inl (Nat.le_of_eq hnew.symm))
      refine (h.read d).elsewhere hlog (by simp [Elsewhere]) ?_ fun _ => Or.inl (Nat.le_of_eq hnew.symm)
      rw [hreceived, hdispatched]
      intro _
      refine ⟨by rw [linesOf, Framing.pieces_nil, List.filter_nil], fun hopen => ?_⟩
      subst hnew
      simp [Connection.note] at hopen
    · refine (h.read d).elsewhere hlog (by simp [Elsewhere]) ?_ ?_
      · intro hd
        exact absurd (Option.some.inj hd).symm hnew
      · refine fresh_back h.good ht hlog fun hd => ?_
        exact absurd (Option.some.inj hd).symm hnew

theorem Held.data (h : Held hooks s) {c : Nat} (hopen : s.sockets[c]? = some .opened)
    (chunk : Str) : Held hooks ((s.note (.received c chunk)).onData hooks c chunk) := by
  have hc : s.socket = some c := (h.good.wired.owned c).2 (Or.inr hopen)
  have hbuffer := (h.read c).buffer hc hopen
  have hread := (h.read c).all hc
  have hnote : Good hooks ({ s with buffer := s.buffer ++ chunk }.note (.received c chunk)) := by
    have hb := h.good.buffer (s.buffer ++ chunk)
    exact ⟨hb.lawful.snoc trivial, fun hgo => (hb.going hgo).snoc (by simp) (by simp),
      hb.wired.note (by simp) (by simp) (by simp), hb.promised.note (by simp) (by simp)⟩
  have hdispatched : dispatchedOn
      ({ s with buffer := s.buffer ++ chunk }.note (.received c chunk)).log c =
        linesOf (receivedOn s.log c) := by
    rw [Connection.note, dispatchedOn_append, hread]
    simp [dispatchedOn]
  obtain ⟨ht, ⟨es, hes, hreads⟩, hlines, hends⟩ := readLines_spec
    (receivedOn s.log c ++ chunk) (s.buffer ++ chunk) hnote hc hopen rfl
    (by rw [hdispatched, hbuffer]; exact (linesOf_append _ _).symm)
    (by rw [hbuffer]; exact (Framing.remainder_append _ _).symm)
  have hlog : ((s.note (.received c chunk)).onData hooks c chunk).log =
      s.log ++ ([.received c chunk] ++ es) := by
    rw [← List.append_assoc]
    exact hes
  have hreceived : receivedOn ((s.note (.received c chunk)).onData hooks c chunk).log c =
      receivedOn s.log c ++ chunk := by
    rw [hlog, receivedOn_append, receivedOn_append, received_readsOnly hreads]
    simp [receivedOn]
  refine ⟨ht, fun d => ?_⟩
  by_cases hdc : d = c
  · subst hdc
    constructor
    · rw [hreceived]
      exact hlines
    · intro hd
      obtain ⟨-, -, -, hall⟩ | ⟨hnone, -⟩ := hends
      · rw [hreceived]
        exact hall
      · exact absurd (hd.symm.trans hnone) (by simp)
    · intro hd _
      obtain ⟨-, -, hbuf, -⟩ | ⟨hnone, -⟩ := hends
      · rw [hreceived]
        exact hbuf
      · exact absurd (hd.symm.trans hnone) (by simp)
    · rw [hreceived]
      exact hends.imp (fun hall => hall.2.2.2) (fun hgiven => hgiven.2)
    · intro hfresh
      obtain ⟨-, hsockets, -⟩ | ⟨-, pre, line, post, hpost, hgone, -⟩ := hends
      · have hsame : ((s.note (.received d chunk)).onData hooks d chunk).sockets[d]? = some .opened := by
          exact (congrArg (fun sockets : List Phase => sockets[d]?) hsockets).trans hopen
        obtain hlen | hconnecting := hfresh
        · rw [List.getElem?_eq_none hlen] at hsame
          cases hsame
        · rw [hconnecting] at hsame
          cases hsame
      · have hin : .destroyed d ∈ ((s.note (.received d chunk)).onData hooks d chunk).log := by
          have hpost' : ((s.note (.received d chunk)).onData hooks d chunk).log =
              pre ++ .dispatched d line :: post := hpost
          rw [hpost']
          simp [hgone]
        obtain ⟨hlt, hdead⟩ := ht.wired.gone d hin
        obtain hlen | hconnecting := hfresh
        · exact absurd hlt (Nat.not_lt_of_le hlen)
        · exact absurd (Or.inl hconnecting) hdead
  · have hnot : ((s.note (.received c chunk)).onData hooks c chunk).socket ≠ some d := by
      intro hd
      obtain ⟨hcs, -⟩ | ⟨hnone, -⟩ := hends
      · exact hdc (Option.some.inj (hd.symm.trans hcs))
      · exact absurd (hd.symm.trans hnone) (by simp)
    refine (h.read d).elsewhere hlog ?_ (fun hd => absurd hd hnot)
      (fresh_back h.good ht hlog fun hd => absurd hd hnot)
    intro e he
    obtain he | he := List.mem_append.1 he
    · rw [List.mem_singleton.1 he]
      exact Ne.symm hdc
    · exact (hreads e he).elsewhere hdc

theorem Held.down (h : Held hooks s) {c : Nat} (hc : s.socket = some c) (phase : Phase)
    (reason : Str) : Held hooks (({ s with sockets := s.sockets.set c phase }).down hooks c reason) := by
  obtain ⟨ht, hnone, es, hes, hunread, -⟩ := down_spec h.good hc phase reason
  exact h.unread ht es hes hunread fun d hd => absurd (hd.symm.trans hnone) (by simp)

/-- A socket that is not in use any more closes. -/
theorem Held.close (h : Held hooks s) {c : Nat} (hc : s.socket ≠ some c) :
    Held hooks { s with sockets := s.sockets.set c .closed } := by
  have hw := h.good.wired
  have hp := h.good.promised
  have hother : ∀ d, d ≠ c → (s.sockets.set c .closed)[d]? = s.sockets[d]? := fun d hd =>
    List.getElem?_set_ne (Ne.symm hd)
  have hself : ¬ Alive (s.sockets.set c .closed) c := by
    rw [Alive, List.getElem?_set_self']
    cases s.sockets[c]? <;> simp
  have halive : ∀ d, Alive (s.sockets.set c .closed) d ↔ Alive s.sockets d := by
    intro d
    by_cases hd : d = c
    · subst hd
      exact iff_of_false hself fun hold => hc ((hw.owned d).2 hold)
    · rw [Alive, hother d hd, Alive]
  have hgood : Good hooks { s with sockets := s.sockets.set c .closed } := by
    refine ⟨h.good.lawful, h.good.going, ?_,
      ⟨hp.alarms, hp.nodup, hp.said, hp.waiting, hp.settled, hp.resolved⟩⟩
    refine ⟨fun d => (hw.owned d).trans (halive d).symm, ?_, hw.idle, hw.welcomed, hw.timers,
      hw.apart, hw.ended, ?_, ?_, ?_⟩
    · intro d hd
      have hdc : d ≠ c := fun heq => hc (heq ▸ hd)
      dsimp only
      rw [hother d hdc]
      exact hw.live d hd
    · intro d
      dsimp only
      rw [List.length_set]
      exact hw.made d
    · intro d out hd
      obtain ⟨hlt, hphase⟩ := hw.wrote d out hd
      dsimp only
      rw [List.length_set]
      refine ⟨hlt, ?_⟩
      by_cases hdc : d = c
      · subst hdc
        exact fun hconnecting => hself (Or.inl hconnecting)
      · rwa [hother d hdc]
    · intro d hd
      obtain ⟨hlt, hdead⟩ := hw.gone d hd
      dsimp only
      rw [List.length_set]
      exact ⟨hlt, fun hnew => hdead ((halive d).1 hnew)⟩
  refine h.unread hgood [] (List.append_nil _).symm (by simp) fun d hd => ?_
  exact ⟨hd, hother d fun heq => hc (heq ▸ hd), rfl⟩

theorem Held.expire (h : Held hooks s) {n : Nat} (hn : n ∈ s.alarms) : Held hooks (s.expire n) := by
  have hpending : n ∈ s.pending := h.good.promised.alarms ▸ hn
  obtain ⟨hsaid, hnone, -⟩ := h.good.promised.waiting n hpending
  have hgood : Good hooks (s.expire n) := by
    refine ⟨h.good.lawful.snoc ⟨hsaid, hnone, Or.inr rfl⟩,
      fun hgo => (h.good.going hgo).snoc (by simp) (by simp), ?_, h.good.promised.resolve hpending _⟩
    have hw := h.good.wired.note (e := .resolved n (.err timeout (str "no reply from hub")))
      (by simp) (by simp) (by simp)
    exact Wired.says hw s.seq (s.pending.erase n) (s.alarms.erase n)
  exact h.unread hgood _ rfl (by simp [Unread]) fun c hc => ⟨hc, rfl, rfl⟩

theorem Held.retry (h : Held hooks s) {timer : Nat} (htimer : timer ∈ s.timers) :
    Held hooks { s with timers := s.timers.erase timer, retry := none }.openSocket := by
  have hw := h.good.wired
  have hp := h.good.promised
  have hretry : s.retry ≠ none := by
    intro hnone
    rw [hw.timers, hnone] at htimer
    cases htimer
  have hsocket : s.socket = none := by
    by_contra hne
    exact hretry (hw.apart hne)
  have htimers : s.timers.erase timer = [] := by
    rw [hw.timers] at htimer ⊢
    obtain ⟨t, ht⟩ := Option.ne_none_iff_exists'.1 hretry
    rw [ht] at htimer ⊢
    rw [Option.toList_some, List.mem_singleton] at htimer
    simp [htimer]
  refine Held.openSocket (s := { s with timers := s.timers.erase timer, retry := none }) ?_ hsocket rfl
  have hgood : Good hooks { s with timers := s.timers.erase timer, retry := none } := by
    refine ⟨h.good.lawful, h.good.going, ?_,
      ⟨hp.alarms, hp.nodup, hp.said, hp.waiting, hp.settled, hp.resolved⟩⟩
    exact ⟨hw.owned, hw.live, hw.idle, hw.welcomed, htimers, fun _ => rfl,
      fun hstop => ⟨(hw.ended hstop).1, rfl⟩, hw.made, hw.wrote, hw.gone⟩
  exact h.unread hgood [] (List.append_nil _).symm (by simp) fun c hc => ⟨hc, rfl, rfl⟩

theorem Held.call (h : Held hooks s) (x : Call Φ) : Held hooks (s.call x) := by
  obtain ⟨hgood, ⟨hbuffer, es, hes, hunread, hends⟩, -⟩ := h.good.call x
  refine h.unread hgood es hes hunread fun c hc => ?_
  obtain ⟨-, hsocket, hsockets⟩ | ⟨hstop, -⟩ := hends
  · exact ⟨hsocket ▸ hc, by rw [hsockets], hbuffer⟩
  · exact absurd (hc.symm.trans (hgood.wired.ended hstop).1) (by simp)

/-- **Step lemma.**  Every signal keeps the invariant. -/
theorem step_held (s : Connection Φ) (x : Signal Φ) (h : Held hooks s) :
    Held hooks (s.step hooks x) := by
  cases x with
  | connect c =>
    unfold step
    dsimp only
    split
    next hconnecting => exact h.connect hconnecting
    · exact h
  | data c chunk =>
    unfold step
    dsimp only
    split
    next hopen => exact h.data hopen chunk
    · exact h
  | error c message =>
    unfold step
    dsimp only
    split
    next halive => exact h.down ((h.good.wired.owned c).2 halive) .destroyed message
    · exact h
  | close c =>
    unfold step
    dsimp only
    split
    · by_cases hc : s.socket = some c
      · exact h.down hc .closed _
      · have hdown : ({ s with sockets := s.sockets.set c .closed }).down hooks c
            (str "the hub closed the connection") = { s with sockets := s.sockets.set c .closed } := by
          unfold down
          rw [if_pos hc]
        rw [hdown]
        exact h.close hc
    · exact h
  | retry timer =>
    unfold step
    dsimp only
    split
    next htimer => exact h.retry htimer
    · exact h
  | expire n =>
    unfold step
    dsimp only
    split
    next hn => exact h.expire hn
    · exact h
  | call x => exact h.call x

theorem nothing_held : Held hooks ({} : Connection Φ) := by
  refine ⟨⟨lawful_nil, fun _ => ⟨by simp, ?_⟩, ?_, ?_⟩, ?_⟩
  · intro pre c line post h
    cases pre <;> cases h
  · constructor <;> simp [Alive]
  · constructor <;> simp
    omega
  · intro c
    refine ⟨List.nil_prefix, by simp, by simp, Or.inl ?_, fun _ => ⟨rfl, rfl⟩⟩
    simp [dispatchedOn, receivedOn, linesOf]

theorem start_held : Held hooks (start : Connection Φ) := nothing_held.openSocket rfl rfl

/-! ## Every run -/

variable (hooks) in
/-- What the connection promises: the trace is lawful, a say that waits has its timer, there
is one socket or one retry timer and after the end neither, and each socket's lines are
dispatched in order, all of them up to where the connection is given up. -/
structure Kept (s : Connection Φ) : Prop where
  lawful : Lawful (law hooks) s.log
  answered : ∀ n, .said n ∈ s.log → (∃ a, .resolved n a ∈ s.log) ∨ n ∈ s.alarms
  expires : ∀ n ∈ s.alarms, ∃ detail,
    .resolved n (.err timeout detail) ∈ (s.step hooks (.expire n)).log
  sockets : ∀ c, Alive s.sockets c → s.socket = some c
  timers : s.timers.length ≤ 1 ∧ (s.timers ≠ [] → ∀ c, ¬ Alive s.sockets c)
  ended : s.stopped = true → s.alarms = [] ∧ s.timers = [] ∧ ∀ c, ¬ Alive s.sockets c
  lines : ∀ c, dispatchedOn s.log c <+: linesOf (receivedOn s.log c) ∧
    (dispatchedOn s.log c = linesOf (receivedOn s.log c) ∨ GivenUpAt s.log c)
  reading : ∀ c, Alive s.sockets c → dispatchedOn s.log c = linesOf (receivedOn s.log c)

/-- **The life of the connection.**  Whatever the hub sends and in whatever order the
signals come, the connection keeps its promises. -/
theorem connection_lawful (hooks : Hooks Φ) (xs : List (Signal Φ)) :
    Kept hooks (Run.after (step hooks) start xs) := by
  have h : Held hooks (Run.after (step hooks) start xs) := Run.preserved step_held start_held xs
  generalize Run.after (step hooks) start xs = s at h
  have hw := h.good.wired
  have hp := h.good.promised
  constructor
  · exact h.good.lawful
  · intro n hn
    by_cases hwaits : n ∈ s.pending
    · exact Or.inr (hp.alarms ▸ hwaits)
    · exact Or.inl (hp.settled n hn hwaits)
  · intro n hn
    refine ⟨str "no reply from hub", ?_⟩
    simp [step, hn, expire, Connection.note]
  · exact fun c => (hw.owned c).2
  · refine ⟨?_, fun htimers c halive => ?_⟩
    · rw [hw.timers]
      cases s.retry <;> simp
    · have hsocket := (hw.owned c).2 halive
      exact htimers (by rw [hw.timers, hw.apart (by simp [hsocket])]; rfl)
  · intro hstop
    obtain ⟨hsocket, hretry⟩ := hw.ended hstop
    refine ⟨?_, by rw [hw.timers, hretry]; rfl, hw.vacant hsocket⟩
    rw [hp.alarms]
    exact Promised.nothing (hsocket ▸ hp)
  · exact fun c => ⟨(h.read c).lines, (h.read c).cut⟩
  · exact fun c halive => (h.read c).all ((hw.owned c).2 halive)

end Connection

end Moot.Opencode
