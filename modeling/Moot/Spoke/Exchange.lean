import Moot.Hub.Told
import Moot.Spoke.Moves

/-!
# The seat and the hub

The full-screen seat and the hub, with the frames on their way in both directions, and
everybody else who is connected.  The seat sends its hello, its lines, its polls and its
pongs; the hub handles them in that order, among everything else it does, and the seat
reads in order what the hub sends it, until the connection breaks.

Proved here: `shown_is_recorded`.
-/

namespace Moot.Spoke
open Py PyJson Proto Hub

/-! ## The room -/

/-- A frame of the seat that the hub has handled: the message it has become, and the reply. -/
structure Entry (F : Type) where
  frame : Obj F
  said : Option MsgRec
  reply : Option Frame

/-- The hub and the seat; how many of the frames that reach it the seat has read, and what the hub has
handled of those it has sent. -/
structure Room (F : Type) where
  hub : Hub
  tui : Tui F
  heard : Nat := 0
  book : List (Entry F) := []

/-- What a message says, in the terms of the seat. -/
def spoken (r : MsgRec) : Echo := (r.addressee, r.kind, r.text, r.priv)

namespace Room

/-- A step of the seat, of its reader, of the hub on the next frame of the seat, or of the hub on
anything else. -/
inductive Event (F : Type)
  | seat (a : Tui.Act F)
  | read (now : F) (fine : Bool)
  | serve
  | hub (op : Op F)

section
variable {F : Type} [PyFloat F] (env : Env) (desk : Desk) (num : Rat → Json F) (c : ClientId)

/-- The frame that is handled now, for the book. -/
def entry (h : Hub) (frame : Obj F) : Entry F where
  frame := frame
  said := (acceptedSays env h (.handle c frame)).head?
  reply := (repliesTo c (newEffects h (h.step env (.handle c frame)))).head?

def step (w : Room F) : Event F → Room F
  | .seat a => { w with tui := w.tui.act desk a }
  | .read now fine =>
    match (reached c w.hub.wire.log)[w.heard]? with
    | some f =>
      if w.tui.listens then
        { w with tui := w.tui.recv (wireFrame num f) now fine, heard := w.heard + 1 }
      else w
    | none => w
  | .serve =>
    match w.tui.sent[w.book.length]? with
    | some frame =>
      { w with hub := w.hub.step env (.handle c frame), book := w.book ++ [entry env c w.hub frame] }
    | none => w
  | .hub op => { w with hub := w.hub.step env op }

/-- The hub, when it starts, and the seat, when it has said hello. -/
def start (records : List MsgRec) (now wall : Rat) (me : Str) (history : List Str) : Room F where
  hub := Hub.init env records now wall
  tui := .start me history false

omit [PyFloat F] in
/-- The frames of the seat come in order, those of the others from elsewhere; and nobody speaks under a
name that is another connection's. -/
def Lawful (w : Room F) : Event F → Prop
  | .serve => w.hub.Owns c
  | .hub (.handle d _) => d ≠ c ∧ w.hub.Owns d
  | _ => True

end

end Room

/-! ## What the hub makes of a frame of the seat -/

/-- The entry says what the hub may do with a frame: a say is accepted, or refused under its number, or
sent by somebody the hub no longer knows; and no other frame is answered with a number that is not its
own. -/
inductive Entry.Fits {F : Type} (broken : Prop) : Entry F → Prop
  | taken (frame : Obj F) (hecho : echoOf frame = none) : Fits broken ⟨frame, none, none⟩
  | said (frame : Obj F) (i : Int) (r : MsgRec) (queued : Nat) (hecho : echoOf frame = some (i, spoken r))
      (hid : 0 < r.id) : Fits broken ⟨frame, some r, some (.said r.id queued i)⟩
  | refused (frame : Obj F) (i : Int) (e : Echo) (code detail : Str) (retry : Option Rat)
      (hecho : echoOf frame = some (i, e)) :
    Fits broken ⟨frame, none, some (.err code detail (some i) retry)⟩
  | stranger (frame : Obj F) (i : Int) (e : Echo) (code detail : Str) (hecho : echoOf frame = some (i, e))
      (hbroken : broken) : Fits broken ⟨frame, none, some (.err code detail none none)⟩
  | other (frame : Obj F) (r : Frame) (hecho : echoOf frame = none)
      (hseq : ∀ i, r.answers = some i → seqOf frame = some i) (hsaid : ∀ id queued i, r ≠ .said id queued i) :
    Fits broken ⟨frame, none, some r⟩

section
variable {F : Type} {addressee kind text : Str} {seq : Int} {priv : Bool} {frame : Obj F}

/-- Only a say has an echo. -/
theorem Speaks.say_or (h : Speaks frame) :
    (∃ addressee kind text seq priv, frame = sayFrame addressee kind text seq priv) ∨
      echoOf frame = none ∧ optSeq frame = seqOf frame ∧ field frame "t" ≠ some (.str (str "say")) := by
  have hother : ∀ t : Str, t ≠ str "say" → (some (.str t) : Option (Json F)) ≠ some (.str (str "say")) := by
    rintro t ht heq
    exact ht (Json.str.inj (Option.some.inj heq))
  cases h with
  | hello me => exact .inr ⟨rfl, rfl, hother (str "hello") (by decide)⟩
  | say addressee kind text seq priv => exact .inl ⟨_, _, _, _, _, rfl⟩
  | state state detail =>
    refine .inr ⟨?_, ?_, hother (str "state") (by decide)⟩
    · cases detail <;> rfl
    · cases detail <;> rfl
  | cmd cmd seq args =>
    refine .inr ⟨?_, rfl, hother (str "cmd") (by decide)⟩
    cases args <;> rfl
  | roster seq => exact .inr ⟨rfl, rfl, hother (str "roster") (by decide)⟩
  | pong => exact .inr ⟨rfl, rfl, hother (str "pong") (by decide)⟩
  | bye => exact .inr ⟨rfl, rfl, hother (str "bye") (by decide)⟩

variable [PyFloat F] {isPrintable : Char → Bool}

theorem validate_say_t {f : Say} (hv : validate isPrintable frame = .ok (.say f)) :
    field frame "t" = some (.str (str "say")) := by
  have hv := mapError_ok hv
  unfold validateFrame at hv
  split at hv
  · next t ht =>
    split_ifs at hv with h₁ h₂
    · obtain ⟨_, _, heq⟩ := map_ok hv
      cases heq
    · rw [ht, h₂]
    all_goals first | cases hv | (obtain ⟨_, _, heq⟩ := map_ok hv; cases heq)
  · cases hv

/-- A say that passes is the say that was meant. -/
theorem validate_sayFrame {f : Inbound}
    (hv : validate isPrintable (sayFrame addressee kind text seq priv : Obj F) = .ok f) :
    ∃ g : Say, f = .say g ∧ g.seq = seq ∧
      (g.addressee, g.kind, g.text, g.priv) = (addressee, kind, text, priv) := by
  have ht : field (sayFrame addressee kind text seq priv : Obj F) "t" = some (.str (str "say")) := rfl
  have hhello : str "say" ≠ str "hello" := by decide
  have hframe := mapError_ok hv
  simp only [validateFrame, ht, if_neg hhello, if_true] at hframe
  obtain ⟨g, hg, rfl⟩ := map_ok hframe
  refine ⟨g, rfl, ?_⟩
  have hto : reqStr (sayFrame addressee kind text seq priv : Obj F) "to" = .ok addressee := rfl
  have hk : reqStr (sayFrame addressee kind text seq priv : Obj F) "kind" = .ok kind := rfl
  have htext : reqStr (sayFrame addressee kind text seq priv : Obj F) "text" = .ok text := rfl
  have hs : reqInt (sayFrame addressee kind text seq priv : Obj F) "seq" = .ok seq := rfl
  have hp : field (sayFrame addressee kind text seq priv : Obj F) "private" =
      if priv then some (.bool true) else none := by
    cases priv <;> rfl
  unfold validateSay at hg
  simp only [hto, hk, htext, hs, hp, bind, Except.bind] at hg
  cases priv with
  | false =>
    simp only [Bool.false_eq_true, if_false, false_and] at hg
    split_ifs at hg
    all_goals cases hg
    exact ⟨rfl, rfl⟩
  | true =>
    simp only [if_true, true_and] at hg
    split_ifs at hg
    all_goals cases hg
    exact ⟨rfl, rfl⟩

variable {env : Env} {h h' : Hub} {c : ClientId} {records : List MsgRec} {es : List Effect}

theorem newEffects_eq (hes : h'.wire.log = h.wire.log ++ es) : newEffects h h' = es := by
  rw [newEffects, hes, List.drop_left]

theorem acceptedSays_of_ne (hv : ∀ f, validate env.isPrintable frame ≠ .ok (.say f)) :
    acceptedSays env h (.handle c frame) = [] := by
  cases hf : validate env.isPrintable frame with
  | error e => simp only [acceptedSays, hf]
  | ok f =>
    cases f with
    | say f => exact absurd hf (hv f)
    | _ => simp only [acceptedSays, hf]

/-- An accepted say is recorded as it was meant, under a positive id. -/
theorem mem_acceptedSays {f : Say} (hv : validate env.isPrintable frame = .ok (.say f)) {r : MsgRec}
    (hr : r ∈ acceptedSays env h (.handle c frame)) :
    spoken r = (f.addressee, f.kind, f.text, f.priv) ∧ 0 < r.id := by
  simp only [acceptedSays, hv, acceptedOf] at hr
  split at hr
  · cases hr
  · split at hr
    · rw [List.mem_singleton.mp hr]
      exact ⟨rfl, Nat.succ_pos _⟩
    · cases hr

theorem entry_eq (frame : Obj F) {rs : List Frame} (htold : Grows c rs h (h.step env (.handle c frame)) es) :
    Room.entry env c h frame = ⟨frame, (acceptedSays env h (.handle c frame)).head?, rs.head?⟩ := by
  rw [Room.entry, newEffects_eq htold.log, htold.replies]

/-- What is no say is answered with its own number, if with any. -/
theorem answers_of_fits {old : List MsgRec} {r : Frame} (hfits : Fits env old h c frame h' r)
    (hsay : ∀ f, validate env.isPrintable frame ≠ .ok (.say f)) :
    (∀ i, r.answers = some i → optSeq frame = some i) ∧ ∀ id queued i, r ≠ .said id queued i := by
  have herr : ∀ code detail, r = .err code detail (optSeq frame) none →
      (∀ i, r.answers = some i → optSeq frame = some i) ∧ ∀ id queued i, r ≠ .said id queued i := by
    rintro code detail rfl
    refine ⟨fun i hi => hi, ?_⟩
    rintro id queued i ⟨⟩
  have hmute : r.answers = none →
      (∀ i, r.answers = some i → optSeq frame = some i) ∧ ∀ id queued i, r ≠ .said id queued i := by
    intro hnone
    refine ⟨fun i hi => ?_, fun id queued i heq => ?_⟩
    · rw [hnone] at hi
      cases hi
    · rw [heq] at hnone
      cases hnone
  cases hv : validate env.isPrintable frame with
  | error e =>
    simp only [Fits, hv] at hfits
    obtain ⟨code, detail, hr⟩ := hfits
    exact herr code detail hr
  | ok f =>
    cases f with
    | hello g =>
      simp only [Fits, hv] at hfits
      rcases hfits with ⟨k, p, hr⟩ | ⟨code, detail, hr⟩
      · exact hmute (by rw [hr]; rfl)
      · exact hmute (by rw [hr]; rfl)
    | say g => exact absurd hv (hsay g)
    | cmd cmd seq =>
      simp only [Fits, hv] at hfits
      split at hfits
      · rcases hfits with hr | ⟨code, detail, hr⟩
        · rw [hr]
          refine ⟨fun i hi => hi, ?_⟩
          rintro id queued i ⟨⟩
        · exact herr code detail hr
      · obtain ⟨code, detail, hr⟩ := hfits
        exact hmute (by rw [hr]; rfl)
    | roster seq =>
      simp only [Fits, hv] at hfits
      split at hfits
      · obtain ⟨round, most, frozen, muted, goal, peers, hr⟩ := hfits
        exact hmute (by rw [hr]; rfl)
      · obtain ⟨code, detail, hr⟩ := hfits
        exact hmute (by rw [hr]; rfl)
    | _ =>
      simp only [Fits, hv] at hfits
      split at hfits
      · cases hfits
      · obtain ⟨code, detail, hr⟩ := hfits
        exact hmute (by rw [hr]; rfl)

variable (env) in
/-- **A frame of the seat.**  What the hub makes of it fits, and is all that the seat is answered. -/
theorem fits_entry (hk : Hub.Kept records h) (hseated : h.Seated) (hown : h.Owns c) (hspeaks : Speaks frame)
    (hnamed : echoOf frame ≠ none → (h.wire.clients c).name ≠ []) :
    ∃ es, Grows c (Room.entry env c h frame).reply.toList h (h.step env (.handle c frame)) es ∧
      (Room.entry env c h frame).Fits
        (∃ name f, Effect.send name c false f ∈ (h.step env (.handle c frame)).wire.log) := by
  have hall := answered env hk hown frame
  rcases hspeaks.say_or with ⟨addressee, kind, text, seq, priv, hframe⟩ | ⟨hecho, hseq, ht⟩
  · have hecho : echoOf frame = some (seq, addressee, kind, text, priv) := by
      rw [hframe]
      exact echoOf_sayFrame seq
    have hnum : optSeq frame = some seq := by rw [hframe]; rfl
    have hvalid : ∀ f, validate env.isPrintable frame = .ok f → ∃ g : Say, f = .say g ∧ g.seq = seq ∧
        (g.addressee, g.kind, g.text, g.priv) = (addressee, kind, text, priv) := by
      rw [hframe]
      exact fun f hf => validate_sayFrame hf
    have hnot : taken env h c frame = false := by
      rw [taken, Bool.and_eq_false_iff]
      right
      split
      · next hv => obtain ⟨g, hg, -⟩ := hvalid _ hv; cases hg
      · next hv => obtain ⟨g, hg, -⟩ := hvalid _ hv; cases hg
      · next hv => obtain ⟨g, hg, -⟩ := hvalid _ hv; cases hg
      · rfl
    rw [hnot, if_neg Bool.false_ne_true] at hall
    obtain ⟨r, hr, hfits⟩ := hall
    obtain ⟨es, htold⟩ := hr.told c
    rw [if_pos rfl] at htold
    rw [entry_eq _ htold]
    refine ⟨es, htold, ?_⟩
    cases hv : validate env.isPrintable frame with
    | error e =>
      simp only [Fits, hv] at hfits
      obtain ⟨code, detail, rfl⟩ := hfits
      rw [acceptedSays_of_ne (fun f hf => by rw [hv] at hf; cases hf), hnum]
      exact .refused _ seq _ code detail none hecho
    | ok f =>
      obtain ⟨g, rfl, rfl, hg⟩ := hvalid f hv
      simp only [Fits, hv] at hfits
      split at hfits
      · cases haccepted : acceptedSays env h (.handle c frame) with
        | nil =>
          rw [haccepted] at hfits
          obtain ⟨-, code, detail, retry, rfl⟩ := hfits
          exact .refused _ g.seq _ code detail retry hecho
        | cons m ms =>
          rw [haccepted] at hfits
          obtain ⟨-, rfl, -⟩ := hfits
          obtain ⟨hspoken, hid⟩ := mem_acceptedSays (h := h) (c := c) hv (r := m) (by
            rw [haccepted]
            exact List.mem_cons_self ..)
          refine .said _ g.seq m _ ?_ hid
          rw [hspoken, hg]
          exact hecho
      · next hout =>
        obtain ⟨code, detail, rfl⟩ := hfits
        have hnone : h.get? (h.wire.clients c).name = none := by
          cases hp : h.get? (h.wire.clients c).name with
          | none => rfl
          | some p => exact absurd (contains_of_get? hp) hout
        -- whom the hub has forgotten it has hung up on
        have hdown : h.up c = false := by
          rw [Bool.eq_false_iff]
          intro hup
          obtain ⟨p, hp, -⟩ := hseated c hup (hnamed (by rw [hecho]; exact Option.some_ne_none _))
          rw [hnone] at hp
          cases hp
        have hlife : (h.lifeSign (h.wire.clients c).name).get? (h.wire.clients c).name = none := by
          rw [lifeSign, get?_modify_self, hnone]
          rfl
        have haccepted : acceptedSays env h (.handle c frame) = [] := by
          simp only [acceptedSays, hv, acceptedOf, hlife]
        have hstep : h.step env (.handle c frame) =
            h.errRaw env c errMalformed (str "hello expected first") none := by
          show h.handle env c _ = _
          rw [handle, hv]
          show h.dispatch env c (.say g) = _
          rw [dispatch, hnone]
        rw [haccepted]
        refine .stranger _ g.seq _ code detail hecho ⟨(h.wire.clients c).name,
          .err errMalformed (str "hello expected first") none none, ?_⟩
        rw [hstep]
        refine List.mem_append_right _ (List.mem_singleton.mpr ?_)
        show _ = Effect.send _ c (h.up c) _
        rw [hdown]
  · have hsay : ∀ f, validate env.isPrintable frame ≠ .ok (.say f) :=
      fun f hf => ht (validate_say_t hf)
    have hnone := acceptedSays_of_ne (h := h) (c := c) hsay
    split at hall
    · obtain ⟨es, htold⟩ := hall.told c
      rw [entry_eq _ htold, hnone]
      exact ⟨es, htold, .taken _ hecho⟩
    · obtain ⟨r, hr, hfits⟩ := hall
      obtain ⟨es, htold⟩ := hr.told c
      rw [if_pos rfl] at htold
      rw [entry_eq _ htold, hnone]
      obtain ⟨hnumber, hsaid⟩ := answers_of_fits hfits hsay
      exact ⟨es, htold, .other _ r hecho (fun i hi => hseq ▸ hnumber i hi) hsaid⟩

end

/-! ## What the seat makes of a reply -/

section
variable {F : Type} (num : Rat → Json F)

/-- What the screen is to show of the entry. -/
def Entry.verdict (x : Entry F) : Option (Verdict F) :=
  match x.said, x.reply with
  | some r, some (.said _ queued _) => some (.said (spoken r) queued (some r.id))
  | none, some (.err code detail seq retry) =>
    some (.refused (wireFrame num (.err code detail seq retry)))
  | _, _ => none

variable {num} {s : Tui F} {x : Entry F} {f : Frame} {answered : List (Option Int)} {broken : Prop}

theorem Entry.Fits.mono {broken' : Prop} (h : x.Fits broken) (hb : broken → broken') : x.Fits broken' := by
  cases h with
  | taken frame hecho => exact .taken frame hecho
  | said frame i r queued hecho hid => exact .said frame i r queued hecho hid
  | refused frame i e code detail retry hecho => exact .refused frame i e code detail retry hecho
  | stranger frame i e code detail hecho hbroken => exact .stranger frame i e code detail hecho (hb hbroken)
  | other frame r hecho hseq hsaid => exact .other frame r hecho hseq hsaid

/-- The reply answers the frame's own number. -/
theorem Entry.Fits.seq (h : x.Fits broken) (hf : x.reply = some f) {i : Int} (hi : f.answers = some i) :
    seqOf x.frame = some i := by
  cases h with
  | taken => cases hf
  | said frame j r queued hecho hid =>
    cases hf
    rw [← hi]
    exact seqOf_of_echoOf hecho
  | refused frame j e code detail retry hecho =>
    cases hf
    rw [← hi]
    exact seqOf_of_echoOf hecho
  | stranger =>
    cases hf
    cases hi
  | other frame r hecho hseq hsaid =>
    cases hf
    exact hseq i hi

/-- A say is recorded as it was meant, or refused. -/
theorem Entry.Fits.fate (h : x.Fits broken) {i : Int} {e : Echo} (hx : echoOf x.frame = some (i, e)) :
    (∃ r, x.said = some r ∧ spoken r = e) ∨
      x.said = none ∧ ∃ code detail seq retry, x.reply = some (.err code detail seq retry) := by
  cases h with
  | taken frame hecho => cases hecho.symm.trans hx
  | said frame j r queued hecho hid =>
    cases hecho.symm.trans hx
    exact .inl ⟨r, rfl, rfl⟩
  | refused frame j e code detail retry hecho => exact .inr ⟨rfl, code, detail, some j, retry, rfl⟩
  | stranger frame j e code detail hecho hbroken => exact .inr ⟨rfl, code, detail, none, none, rfl⟩
  | other frame r hecho hseq hsaid => cases hecho.symm.trans hx

/-- On an unbroken connection a say is answered under its number. -/
theorem Entry.Fits.answers (h : x.Fits broken) {i : Int} {e : Echo} (hx : echoOf x.frame = some (i, e))
    (hb : ¬broken) : ∃ f, x.reply = some f ∧ f.answers = some i := by
  cases h with
  | taken frame hecho => cases hecho.symm.trans hx
  | said frame j r queued hecho hid =>
    cases hecho.symm.trans hx
    exact ⟨_, rfl, rfl⟩
  | refused frame j e' code detail retry hecho =>
    cases hecho.symm.trans hx
    exact ⟨_, rfl, rfl⟩
  | stranger frame j e code detail hecho hbroken => exact absurd hbroken hb
  | other frame r hecho hseq hsaid => cases hecho.symm.trans hx

variable (num) in
theorem kindOf_wireFrame (f : Frame) : kindOf (wireFrame num f) =
    match f with
    | .welcome .. => str "welcome"
    | .deliver .. => str "deliver"
    | .said .. | .ok _ => str "ok"
    | .err .. => str "err"
    | .event _ => str "event"
    | .ping => str "ping"
    | .roster .. => str "roster" := by
  cases f <;> rfl

theorem exists_welcome (h : kindOf (wireFrame num f) = str "welcome") :
    ∃ name round peers rate most goal, f = .welcome name round peers rate most goal := by
  have hother : ∀ k : Str, k ≠ str "welcome" → kindOf (wireFrame num f) ≠ k := by
    rintro k hk hkind
    exact hk (hkind.symm.trans h)
  cases f with
  | welcome => exact ⟨_, _, _, _, _, _, rfl⟩
  | deliver => exact absurd (kindOf_wireFrame num _) (hother (str "deliver") (by decide))
  | said => exact absurd (kindOf_wireFrame num _) (hother (str "ok") (by decide))
  | ok => exact absurd (kindOf_wireFrame num _) (hother (str "ok") (by decide))
  | err => exact absurd (kindOf_wireFrame num _) (hother (str "err") (by decide))
  | event => exact absurd (kindOf_wireFrame num _) (hother (str "event") (by decide))
  | ping => exact absurd (kindOf_wireFrame num _) (hother (str "ping") (by decide))
  | roster => exact absurd (kindOf_wireFrame num _) (hother (str "roster") (by decide))

/-- An error that the seat hears. -/
theorem hear_wireErr (code detail : Str) (seq : Option Int) (retry : Option Rat) (now : F) (fine : Bool)
    (hphase : s.phase ≠ .greeting) (hw : s.core.Waits answered) :
    ∃ shown, (s.hear (wireFrame num (.err code detail seq retry)) now fine).core =
        { s.core with
          pending := (s.hear (wireFrame num (.err code detail seq retry)) now fine).pending
          verdicts := s.core.verdicts ++ shown } ∧
      (s.hear (wireFrame num (.err code detail seq retry)) now fine).core.Waits (answered ++ [seq]) ∧
      (shown = [.refused (wireFrame num (.err code detail seq retry))] ∨
        shown = [] ∧ (s.hear (wireFrame num (.err code detail seq retry)) now fine).listens = false) := by
  have hkind := kindOf_wireFrame num (.err code detail seq retry)
  have hseq : pyInt? (field (wireFrame num (.err code detail seq retry)) "seq") = seq := by
    cases retry <;> cases seq <;> rfl
  obtain ⟨shown, hcore, hshown⟩ := Tui.hear_err now fine hkind hphase
  rw [hseq] at hcore
  refine ⟨shown, ?_, ?_, hshown⟩
  · have hpending := congrArg Core.pending hcore
    rw [hcore]
    exact congrArg (fun d => ({ s.core with pending := d, verdicts := s.core.verdicts ++ shown } : Core F))
      hpending.symm
  · rw [hcore]
    cases seq with
    | none => exact hw.other (a := none) nofun
    | some i => exact hw.answer i _

/-- **A reply that the seat hears** ends the wait of its say, and is shown unless the reader ends. -/
theorem hear_reply (hfits : x.Fits broken) (hf : x.reply = some f) (hreply : f.isReply = true)
    (hphase : s.phase ≠ .greeting) (hc : s.core.Counted) (hw : s.core.Waits answered)
    (hsent : x.frame ∈ s.sent ++ s.rest) (hfresh : ∀ i, seqOf x.frame = some i → some i ∉ answered)
    (now : F) (fine : Bool) :
    ∃ shown, (s.hear (wireFrame num f) now fine).core =
        { s.core with
          pending := (s.hear (wireFrame num f) now fine).pending
          verdicts := s.core.verdicts ++ shown } ∧
      (s.hear (wireFrame num f) now fine).core.Waits (answered ++ [f.answers]) ∧
      (shown = (x.verdict num).toList ∨ shown = [] ∧ (s.hear (wireFrame num f) now fine).listens = false) := by
  have hmute : (s.hear (wireFrame num f) now fine).core = s.core →
      (∀ i, f.answers = some i → ∀ e, (i, e) ∉ s.core.uttered) → x.verdict num = none →
      ∃ shown, (s.hear (wireFrame num f) now fine).core =
        { s.core with
          pending := (s.hear (wireFrame num f) now fine).pending
          verdicts := s.core.verdicts ++ shown } ∧
      (s.hear (wireFrame num f) now fine).core.Waits (answered ++ [f.answers]) ∧
      (shown = (x.verdict num).toList ∨
        shown = [] ∧ (s.hear (wireFrame num f) now fine).listens = false) := by
    intro hcore hnot hverdict
    refine ⟨[], ?_, ?_, .inl (by rw [hverdict]; rfl)⟩
    · have hpending : (s.hear (wireFrame num f) now fine).pending = s.pending := congrArg Core.pending hcore
      rw [hpending, List.append_nil]
      exact hcore
    · rw [hcore]
      exact hw.other hnot
  cases hfits with
  | taken => cases hf
  | said frame i r queued hecho hid =>
    cases hf
    have hsay : (i, spoken r) ∈ s.core.uttered := mem_uttered.mpr ⟨frame, hsent, hecho⟩
    have hpending : s.pending.get? i = some (spoken r) :=
      (hw i _).mpr ⟨hsay, hfresh i (seqOf_of_echoOf hecho)⟩
    have hkind := kindOf_wireFrame num (.said r.id queued i)
    have hqueued : (pyInt? (field (wireFrame num (.said r.id queued i)) "queued")).getD 0 = queued := rfl
    have hmsg : msgId (wireFrame num (.said r.id queued i)) = some (r.id : Int) :=
      if_pos (Int.natCast_pos.mpr hid)
    have hseq : pyInt? (field (wireFrame num (.said r.id queued i)) "seq") = some i := rfl
    obtain ⟨shown, hcore, hshown⟩ := Tui.core_acknowledged now fine hseq hpending hphase
    rw [Tui.hear_ok now fine hkind]
    refine ⟨shown, ?_, ?_, ?_⟩
    · have herased := congrArg Core.pending hcore
      rw [hcore]
      exact congrArg
        (fun d => ({ s.core with pending := d, verdicts := s.core.verdicts ++ shown } : Core F)) herased.symm
    · rw [hcore]
      exact hw.answer i _
    · rwa [hqueued, hmsg] at hshown
  | refused frame i e code detail retry hecho =>
    cases hf
    exact hear_wireErr code detail (some i) retry now fine hphase hw
  | stranger frame i e code detail hecho hbroken =>
    cases hf
    exact hear_wireErr code detail none none now fine hphase hw
  | other frame r hecho hseq hsaid =>
    cases hf
    -- the number of a frame that is no say is on no say
    have hnot : ∀ i, f.answers = some i → ∀ e, (i, e) ∉ s.core.uttered := by
      intro i hi e hmem
      obtain ⟨g, hg, hgi⟩ := mem_uttered.mp hmem
      rw [hc.unique hg hsent (seqOf_of_echoOf hgi) (hseq i hi), hecho] at hgi
      cases hgi
    cases f with
    | welcome name round peers rate most goal =>
      have hkind : kindOf (wireFrame num (.welcome name round peers rate most goal)) = str "welcome" :=
        kindOf_wireFrame num _
      exact hmute (Tui.hear_plain now fine (by rw [hkind]; decide) (by rw [hkind]; decide)
        (by rw [hkind]; decide)) hnot rfl
    | said id queued i => exact absurd rfl (hsaid id queued i)
    | ok seq =>
      refine hmute ?_ hnot rfl
      rw [Tui.hear_ok now fine rfl]
      cases seq with
      | none => rfl
      | some i =>
        have hnone : s.pending.get? i = none := by
          cases hget : s.pending.get? i with
          | none => rfl
          | some e => exact absurd ((hw i e).mp hget).1 (hnot i rfl e)
        have hfield : pyInt? (field (wireFrame num (.ok (some i))) "seq") = some i := rfl
        unfold Tui.acknowledged
        simp only [hfield, hnone]
    | err code detail seq retry => exact hear_wireErr code detail seq retry now fine hphase hw
    | roster round most frozen muted seq goal peers =>
      have hkind : kindOf (wireFrame num (.roster round most frozen muted seq goal peers)) = str "roster" :=
        kindOf_wireFrame num _
      exact hmute (Tui.hear_plain now fine (by rw [hkind]; decide) (by rw [hkind]; decide)
        (by rw [hkind]; decide)) hnot rfl
    | deliver round msgs => cases hreply
    | event e => cases hreply
    | ping => cases hreply

end

/-! ## The invariant -/

section
variable {F : Type}

/-- The entries with a reply, with it. -/
def replied (book : List (Entry F)) : List (Entry F × Frame) :=
  book.filterMap fun x => x.reply.map fun r => (x, r)

/-- The replies that the seat has read. -/
def Room.read (c : ClientId) (w : Room F) : List Frame :=
  ((reached c w.hub.wire.log).take w.heard).filter Frame.isReply

section
variable {book : List (Entry F)} {x : Entry F} {f : Frame}

theorem mem_replied (h : (x, f) ∈ replied book) : x ∈ book ∧ x.reply = some f := by
  obtain ⟨y, hy, heq⟩ := List.mem_filterMap.mp h
  obtain ⟨r, hr, hpair⟩ := Option.map_eq_some_iff.mp heq
  cases hpair
  exact ⟨hy, hr⟩

theorem map_replied (book : List (Entry F)) : (replied book).map Prod.snd = book.filterMap Entry.reply := by
  rw [replied, List.map_filterMap]
  congr 1
  funext x
  cases x.reply <;> rfl

theorem verdicts_replied (num : Rat → Json F) (book : List (Entry F)) :
    (replied book).filterMap (fun p => p.1.verdict num) = book.filterMap (Entry.verdict num) := by
  rw [replied, List.filterMap_filterMap]
  congr 1
  funext x
  obtain ⟨frame, said, reply⟩ := x
  cases reply with
  | none => cases said <;> rfl
  | some r => rfl

theorem frames_replied (book : List (Entry F)) :
    ((replied book).map fun p => p.1.frame).Sublist (book.map Entry.frame) := by
  induction book with
  | nil => exact List.Sublist.refl _
  | cons x book ih =>
    obtain ⟨frame, said, reply⟩ := x
    cases reply with
    | none => exact ih.cons _
    | some r => exact ih.cons_cons _

theorem replied_append (book book' : List (Entry F)) :
    replied (book ++ book') = replied book ++ replied book' := List.filterMap_append

end

variable [PyFloat F] (env : Env) (records : List MsgRec) (now wall : Rat) (num : Rat → Json F)
  (c : ClientId)

/-- The book tells what the hub has made of the frames of the seat, in the order in which they were sent;
the seat has read the first of the replies, and shown what is to be shown of them; and what waits are
the says whose replies it has not read. -/
structure Room.Sound (w : Room F) : Prop where
  run : ∃ ops : List (Op F), w.hub = Run.after (Hub.step env) (Hub.init env records now wall) ops
  frames : w.book.map Entry.frame <+: w.tui.sent
  fits : ∀ x ∈ w.book, x.Fits (∃ name f, Effect.send name c false f ∈ w.hub.wire.log)
  replies : repliesTo c w.hub.wire.log = w.book.filterMap Entry.reply
  records : (w.book.filterMap Entry.said).Sublist (said w.hub.wire.log)
  counted : w.tui.core.Counted
  waits : w.tui.core.Waits ((w.read c).map Frame.answers)
  shown : ∃ lost, ((replied w.book).take (w.read c).length).filterMap (fun p => p.1.verdict num) =
    w.tui.core.verdicts ++ lost ∧ (w.tui.listens = true → lost = [])
  joined : w.tui.Joined → ∃ f ∈ framesTo c w.hub.wire.log, outline f ≠ none
  first : ∃ me, [helloOut me] <+: w.tui.sent
  greeting : w.tui.phase = .greeting → w.tui.sent.length + w.tui.rest.length = 1 ∧ w.tui.reading = false
  within : w.heard ≤ (reached c w.hub.wire.log).length

variable {env records now wall num c} {desk : Desk} {w : Room F}

namespace Room

omit [PyFloat F] in
/-- The replies that are read come first. -/
theorem read_initial (hreplies : repliesTo c w.hub.wire.log = w.book.filterMap Entry.reply) :
    w.read c <+: (replied w.book).map Prod.snd := by
  rw [map_replied, ← hreplies]
  exact ((List.take_prefix _ _).filter _).trans (reached_initial c _)

omit [PyFloat F] in
theorem read_eq_take (hreplies : repliesTo c w.hub.wire.log = w.book.filterMap Entry.reply) :
    w.read c = ((replied w.book).take (w.read c).length).map Prod.snd := by
  rw [List.map_take]
  exact List.prefix_iff_eq_take.mp (read_initial hreplies)

/-- The numbers that have been answered are numbers of the seat. -/
theorem Sound.answered (hs : w.Sound env records now wall num c) {i : Int}
    (hi : some i ∈ (w.read c).map Frame.answers) :
    ∃ p ∈ (replied w.book).take (w.read c).length, p.2.answers = some i ∧ seqOf p.1.frame = some i := by
  rw [read_eq_take hs.replies, List.map_map, List.mem_map] at hi
  obtain ⟨⟨x, f⟩, hmem, hf⟩ := hi
  obtain ⟨hx, hreply⟩ := mem_replied (List.mem_of_mem_take hmem)
  exact ⟨(x, f), hmem, hf, (hs.fits x hx).seq hreply hf⟩

theorem Sound.mem_sent (hs : w.Sound env records now wall num c) {x : Entry F} (hx : x ∈ w.book) :
    x.frame ∈ w.tui.sent ++ w.tui.rest :=
  List.mem_append_left _ (hs.frames.subset (List.mem_map_of_mem hx))

theorem Sound.numbered (hs : w.Sound env records now wall num c) {i : Int}
    (hi : some i ∈ (w.read c).map Frame.answers) : i ∈ (w.tui.sent ++ w.tui.rest).filterMap seqOf := by
  obtain ⟨p, hp, -, hseq⟩ := hs.answered hi
  exact List.mem_filterMap.mpr ⟨_, hs.mem_sent (mem_replied (List.mem_of_mem_take hp)).1, hseq⟩

/-- Only who has been welcomed has said anything. -/
theorem Sound.joined_of_say (hs : w.Sound env records now wall num c) {frame : Obj F}
    (hframe : frame ∈ w.tui.sent ++ w.tui.rest) (hecho : echoOf frame ≠ none) : w.tui.Joined := by
  obtain ⟨me, more, hsent⟩ := hs.first
  refine .inr (.inr fun hone => hecho ?_)
  have hlength := congrArg List.length hsent
  rw [List.length_append, List.length_singleton] at hlength
  obtain rfl : more = [] := List.length_eq_zero_iff.mp (by omega)
  have hrest : w.tui.rest = [] := List.length_eq_zero_iff.mp (by omega)
  rw [← hsent, hrest, List.append_nil, List.append_nil] at hframe
  rw [List.mem_singleton.mp hframe]
  rfl

/-! ### The main thread -/

/-- **A step of the seat** that reads nothing. -/
theorem Sound.seat (hs : w.Sound env records now wall num c) (a : Tui.Act F) :
    ({ w with tui := w.tui.act desk a } : Room F).Sound env records now wall num c := by
  have hmove : Move w.tui.core (w.tui.act desk a).core := Tui.act_moves w.tui a
  have hstays := Tui.stays_act (s := w.tui) desk a
  have hgreeting : (w.tui.act desk a).phase = .greeting →
      (w.tui.act desk a).sent.length + (w.tui.act desk a).rest.length = 1 ∧
        (w.tui.act desk a).reading = false := by
    intro hphase
    have hbefore : w.tui.phase = .greeting := by
      rcases hstays.1 with heq | heq
      · exact heq.symm.trans hphase
      · cases heq.symm.trans hphase
    obtain ⟨hone, hreading⟩ := hs.greeting hbefore
    obtain ⟨hsent, hrest⟩ := Tui.act_elsewhere desk (by rw [hbefore]; decide) a
    refine ⟨by rw [hsent, hrest]; exact hone, ?_⟩
    · rw [Bool.eq_false_iff]
      intro htrue
      have hfalse := hstays.2 htrue
      rw [hreading] at hfalse
      cases hfalse
  obtain ⟨lost, hshown, hlost⟩ := hs.shown
  exact { hs with
    frames := hs.frames.trans hmove.sent
    counted := hmove.counted hs.counted
    waits := hmove.waits hs.counted hs.waits fun _ => hs.numbered
    shown := ⟨lost, hshown.trans (by rw [hmove.verdicts]), fun hl => hlost (hstays.listens hl)⟩
    joined := fun hj => hs.joined (Tui.joined_act hj)
    first := hs.first.imp fun _ hfirst => hfirst.trans hmove.sent
    greeting := hgreeting }

/-! ### The hub -/

theorem Sound.kept (hs : w.Sound env records now wall num c) : Hub.Kept records w.hub := by
  obtain ⟨ops, hops⟩ := hs.run
  rw [hops]
  exact Run.preserved (I := Hub.Kept records) (fun k op hk => hk.step op) (kept_init records now wall) ops

theorem Sound.seated (hs : w.Sound env records now wall num c) : w.hub.Seated := by
  obtain ⟨ops, hops⟩ := hs.run
  rw [hops]
  exact handled_seated.everyRun (fun _ _ hi => hi) (fun _ _ _ hi => hi) (wf_init env records now wall)
    (fun c _ hname => absurd rfl hname) ops

/-- Who has been welcomed has a name. -/
theorem Sound.named (hs : w.Sound env records now wall num c) (hj : w.tui.Joined) :
    (w.hub.wire.clients c).name ≠ [] := by
  obtain ⟨ops, hops⟩ := hs.run
  have hwatched : w.hub.Watched := by
    rw [hops]
    apply handled_watched.everyRun (fun _ _ hi => ⟨hi.mirrored, hi.unmet⟩)
      (fun _ _ _ hi => ⟨hi.mirrored, hi.unmet⟩) (wf_init env records now wall)
    exact ⟨fun n p hp => (by cases hp), fun c _ f hf => (by cases hf)⟩
  obtain ⟨f, hf, hne⟩ := hs.joined hj
  exact fun hname => hne (hwatched.unmet c hname f hf)

/-- The hub goes on: what reaches the seat, and what the book tells of it, grows. -/
theorem Sound.grow (hs : w.Sound env records now wall num c) {op : Op F} {es : List Effect}
    {entries : List (Entry F)}
    (htold : Grows c (entries.filterMap Entry.reply) w.hub (w.hub.step env op) es)
    (hframes : (w.book ++ entries).map Entry.frame <+: w.tui.sent)
    (hfits : ∀ x ∈ entries, x.Fits (∃ name f, Effect.send name c false f ∈ (w.hub.step env op).wire.log))
    (hsaid : (entries.filterMap Entry.said).Sublist (acceptedSays env w.hub op)) :
    ({ w with hub := w.hub.step env op, book := w.book ++ entries } : Room F).Sound
      env records now wall num c := by
  obtain ⟨ops, hops⟩ := hs.run
  have hlog := htold.log
  have hwf := hs.kept.ready.wf
  have hread : Room.read c { w with hub := w.hub.step env op, book := w.book ++ entries } = w.read c := by
    have hgrow := reached_append c w.hub.wire.log es
    show ((reached c (w.hub.step env op).wire.log).take w.heard).filter _ = _
    obtain ⟨more, hmore⟩ := hgrow
    rw [hlog, ← hmore, List.take_append_of_le_length hs.within]
    rfl
  refine {
    run := ⟨ops ++ [op], by rw [Run.after_append, ← hops]; rfl⟩
    frames := hframes
    fits := fun x hx => ?_
    replies := ?_
    records := ?_
    counted := hs.counted
    waits := by rw [hread]; exact hs.waits
    shown := ?_
    joined := fun hj => ?_
    first := hs.first
    greeting := hs.greeting
    within := ?_ }
  · rcases List.mem_append.mp hx with hx | hx
    · refine (hs.fits x hx).mono ?_
      rintro ⟨name, f, hmem⟩
      refine ⟨name, f, ?_⟩
      show _ ∈ (w.hub.step env op).wire.log
      rw [hlog]
      exact List.mem_append_left _ hmem
    · exact hfits x hx
  · show repliesTo c (w.hub.step env op).wire.log = (w.book ++ entries).filterMap Entry.reply
    rw [hlog, repliesTo_append, htold.replies, hs.replies, List.filterMap_append]
  · show ((w.book ++ entries).filterMap Entry.said).Sublist (said (w.hub.step env op).wire.log)
    rw [said_step hwf, List.filterMap_append]
    exact hs.records.append hsaid
  · obtain ⟨lost, hshown, hlost⟩ := hs.shown
    refine ⟨lost, ?_, hlost⟩
    rw [hread]
    show ((replied (w.book ++ entries)).take _).filterMap _ = _
    rw [replied_append, List.take_append_of_le_length, hshown]
    have hle := (read_initial hs.replies).length_le
    rwa [List.length_map] at hle
  · obtain ⟨f, hf, hne⟩ := hs.joined hj
    refine ⟨f, ?_, hne⟩
    show f ∈ framesTo c (w.hub.step env op).wire.log
    rw [hlog, framesTo_append]
    exact List.mem_append_left _ hf
  · show w.heard ≤ (reached c (w.hub.step env op).wire.log).length
    rw [hlog]
    exact hs.within.trans (reached_append c _ es).length_le

/-- **The hub handles** the next frame of the seat. -/
theorem Sound.serve (hs : w.Sound env records now wall num c) (hown : w.hub.Owns c) {frame : Obj F}
    (hframe : w.tui.sent[w.book.length]? = some frame) :
    ({ w with hub := w.hub.step env (.handle c frame), book := w.book ++ [entry env c w.hub frame] } :
      Room F).Sound env records now wall num c := by
  have hmem : frame ∈ w.tui.sent := List.mem_of_getElem? hframe
  have hspeaks := hs.counted.speaks frame (List.mem_append_left _ hmem)
  have hnamed : echoOf frame ≠ none → (w.hub.wire.clients c).name ≠ [] := by
    exact fun hecho => hs.named (hs.joined_of_say (List.mem_append_left _ hmem) hecho)
  obtain ⟨es, htold, hfits⟩ := fits_entry env hs.kept hs.seated hown hspeaks hnamed
  have hreply : [entry env c w.hub frame].filterMap Entry.reply = (entry env c w.hub frame).reply.toList := by
    cases hr : (entry env c w.hub frame).reply <;> simp [hr]
  have hframes : (w.book ++ [entry env c w.hub frame]).map Entry.frame <+: w.tui.sent := by
    obtain ⟨more, hmore⟩ := hs.frames
    have hlength : w.book.length = (w.book.map Entry.frame).length := (List.length_map ..).symm
    rw [← hmore, hlength, List.getElem?_append_right (le_refl _), Nat.sub_self] at hframe
    cases more with
    | nil => cases hframe
    | cons g more =>
      cases hframe
      rw [List.map_append, ← hmore]
      exact ⟨more, by simp [entry]⟩
  have hsaid : ([entry env c w.hub frame].filterMap Entry.said).Sublist
      (acceptedSays env w.hub (.handle c frame)) := by
    cases haccepted : acceptedSays env w.hub (.handle c frame) with
    | nil => simp [entry, haccepted]
    | cons r rs => simp [entry, haccepted]
  rw [← hreply] at htold
  exact hs.grow htold hframes (fun x hx => by rwa [List.mem_singleton.mp hx]) hsaid

/-- **The hub does anything else.** -/
theorem Sound.others (hs : w.Sound env records now wall num c) {op : Op F}
    (hop : ∀ d frame, op = .handle d frame → d ≠ c ∧ w.hub.Owns d) :
    ({ w with hub := w.hub.step env op } : Room F).Sound env records now wall num c := by
  obtain ⟨es, htold⟩ := told_others hs.kept hop
  have hnone : Grows c (([] : List (Entry F)).filterMap Entry.reply) w.hub (w.hub.step env op) es := htold
  have hgrow := hs.grow hnone (by rw [List.append_nil]; exact hs.frames) nofun (List.nil_sublist _)
  simpa only [List.append_nil] using hgrow

/-! ### The reader -/

theorem Sound.uttered_of_greeting (hs : w.Sound env records now wall num c)
    (hphase : w.tui.phase = .greeting) : w.tui.core.uttered = [] := by
  rw [List.eq_nil_iff_forall_not_mem]
  rintro ⟨i, e⟩ hmem
  obtain ⟨frame, hframe, hecho⟩ := mem_uttered.mp hmem
  obtain ⟨hone, hreading⟩ := hs.greeting hphase
  rcases hs.joined_of_say hframe (by rw [hecho]; nofun) with h | h | h
  · cases hphase.symm.trans h
  · cases hreading.symm.trans h
  · exact h hone

/-- The number of a reply that has not been read has not been answered. -/
theorem Sound.fresh (hs : w.Sound env records now wall num c) {x : Entry F} {f : Frame}
    (hx : (replied w.book)[(w.read c).length]? = some (x, f)) {i : Int} (hi : seqOf x.frame = some i) :
    some i ∉ (w.read c).map Frame.answers := by
  intro hmem
  obtain ⟨p, hp, -, hseq⟩ := hs.answered hmem
  have hnodup : (((replied w.book).map fun p => p.1.frame).filterMap seqOf).Nodup := by
    have hsub : ((replied w.book).map fun p => p.1.frame).Sublist (w.tui.sent ++ w.tui.rest) :=
      ((frames_replied w.book).trans hs.frames.sublist).trans (List.sublist_append_left _ _)
    exact (hsub.filterMap seqOf).nodup hs.counted.distinct
  rw [List.filterMap_map, ← List.take_append_drop (w.read c).length (replied w.book),
    List.filterMap_append, List.nodup_append] at hnodup
  have hdrop : (x, f) ∈ (replied w.book).drop (w.read c).length := by
    rw [← Nat.add_zero (w.read c).length, ← List.getElem?_drop] at hx
    exact List.mem_of_getElem? hx
  exact hnodup.2.2 i (List.mem_filterMap.mpr ⟨p, hp, hseq⟩) i (List.mem_filterMap.mpr ⟨_, hdrop, hi⟩) rfl

omit [PyFloat F] in
/-- What is no reply changes nothing that waits. -/
theorem recv_plain {s : Tui F} {f : Frame} (hf : f.isReply = false) (hl : s.listens = true) (t : F)
    (fine : Bool) : Move s.core (s.recv (wireFrame num f) t fine).core := by
  unfold Tui.recv
  split
  · rw [Tui.core_greeted]
    exact .stay
  · next hphase =>
    have hreading : s.reading = true := by
      simpa only [Tui.listens, hphase, decide_false, Bool.false_or] using hl
    rw [if_pos hreading]
    have hplain : ∀ k : Str, kindOf (wireFrame num f) = k → k ≠ str "ping" → k ≠ str "ok" →
        k ≠ str "err" → Move s.core (s.hear (wireFrame num f) t fine).core := by
      rintro k rfl hping hok herr
      rw [Tui.hear_plain t fine hping hok herr]
      exact .stay
    cases f with
    | deliver round msgs =>
      exact hplain (str "deliver") (kindOf_wireFrame num _) (by decide) (by decide) (by decide)
    | event e => exact hplain (str "event") (kindOf_wireFrame num _) (by decide) (by decide) (by decide)
    | ping => exact Tui.hear_ping t fine (kindOf_wireFrame num .ping)
    | _ => cases hf

omit [PyFloat F] in
/-- The reply that is read next is the next in the book. -/
theorem next_replied {w' : Room F} {f : Frame}
    (hread : Room.read c w' = w.read c ++ [f]) (hinitial : Room.read c w' <+: (replied w.book).map Prod.snd) :
    ∃ x, (replied w.book)[(w.read c).length]? = some (x, f) := by
  obtain ⟨more, hmore⟩ := hinitial
  have hf : ((replied w.book).map Prod.snd)[(w.read c).length]? = some f := by
    rw [← hmore, hread, List.append_assoc, List.getElem?_append_right (le_refl _), Nat.sub_self]
    rfl
  rw [List.getElem?_map] at hf
  obtain ⟨⟨x, g⟩, hx, rfl⟩ := Option.map_eq_some_iff.mp hf
  exact ⟨x, hx⟩

/-- What the seat makes of the next reply. -/
theorem Sound.hear_core (hs : w.Sound env records now wall num c) (hl : w.tui.listens = true) {x : Entry F}
    {f : Frame} (hx : (replied w.book)[(w.read c).length]? = some (x, f)) (hreply : f.isReply = true) (t : F)
    (fine : Bool) :
    ∃ shown, (w.tui.recv (wireFrame num f) t fine).core =
        { w.tui.core with
          pending := (w.tui.recv (wireFrame num f) t fine).pending
          verdicts := w.tui.core.verdicts ++ shown } ∧
      (w.tui.recv (wireFrame num f) t fine).core.Waits ((w.read c).map Frame.answers ++ [f.answers]) ∧
      (shown = (x.verdict num).toList ∨
        shown = [] ∧ (w.tui.recv (wireFrame num f) t fine).listens = false) := by
  obtain ⟨hxbook, hxreply⟩ := mem_replied (List.mem_of_getElem? hx)
  unfold Tui.recv
  split
  · next hphase =>
    have huttered := hs.uttered_of_greeting hphase
    have hwelcome : kindOf (wireFrame num f) ≠ str "welcome" →
        (w.tui.greeted (wireFrame num f) fine).listens = false := by
      intro hkind
      rw [Tui.greeted, if_neg hkind]
      exact Tui.listens_fail (hs.greeting hphase).2
    refine ⟨[], ?_, ?_, ?_⟩
    · have hpending : (w.tui.greeted (wireFrame num f) fine).pending = w.tui.pending :=
        congrArg Core.pending (Tui.core_greeted w.tui fine)
      rw [Tui.core_greeted, List.append_nil]
      exact congrArg (fun d => ({ w.tui.core with pending := d } : Core F)) hpending.symm
    · rw [Tui.core_greeted]
      exact hs.waits.other fun i _ e => by rw [huttered]; nofun
    · by_cases hkind : kindOf (wireFrame num f) = str "welcome"
      · left
        obtain ⟨name, round, peers, rate, most, goal, rfl⟩ := exists_welcome hkind
        obtain ⟨frame, said, reply⟩ := x
        cases hxreply
        cases said <;> rfl
      · exact .inr ⟨rfl, hwelcome hkind⟩
  · next hphase =>
    have hreading : w.tui.reading = true := by
      simpa only [Tui.listens, hphase, decide_false, Bool.false_or] using hl
    rw [if_pos hreading]
    exact hear_reply (hs.fits x hxbook) hxreply hreply hphase hs.counted hs.waits (hs.mem_sent hxbook)
      (fun i hi => hs.fresh hx hi) t fine

/-- **The seat reads** the next frame. -/
theorem Sound.hear (hs : w.Sound env records now wall num c) {f : Frame}
    (hf : (reached c w.hub.wire.log)[w.heard]? = some f) (hl : w.tui.listens = true) (t : F) (fine : Bool) :
    ({ w with tui := w.tui.recv (wireFrame num f) t fine, heard := w.heard + 1 } : Room F).Sound
      env records now wall num c := by
  have hread : Room.read c { w with tui := w.tui.recv (wireFrame num f) t fine, heard := w.heard + 1 } =
      w.read c ++ if f.isReply then [f] else [] := by
    show ((reached c w.hub.wire.log).take (w.heard + 1)).filter _ = _
    rw [List.take_add_one, hf, Option.toList_some, List.filter_append, List.filter_cons, List.filter_nil]
    rfl
  have hjoined : (w.tui.recv (wireFrame num f) t fine).Joined →
      ∃ f ∈ framesTo c w.hub.wire.log, outline f ≠ none := by
    intro hj
    rcases Tui.joined_recv t fine hj with hj | ⟨-, hkind⟩
    · exact hs.joined hj
    · refine ⟨f, mem_framesTo_of_reached (List.mem_of_getElem? hf), ?_⟩
      obtain ⟨name, round, peers, rate, most, goal, rfl⟩ := exists_welcome hkind
      nofun
  have hwithin : w.heard + 1 ≤ (reached c w.hub.wire.log).length := (List.getElem?_eq_some_iff.mp hf).1
  have hgreeting : ∀ P : Prop, (w.tui.recv (wireFrame num f) t fine).phase = .greeting → P :=
    fun P h => (Tui.phase_recv t fine h).elim
  obtain ⟨lost, hshown, hlost⟩ := hs.shown
  rw [hlost hl, List.append_nil] at hshown
  cases hreply : f.isReply with
  | false =>
    have hmove : Move w.tui.core (w.tui.recv (wireFrame num f) t fine).core := recv_plain hreply hl t fine
    rw [hreply, if_neg Bool.false_ne_true, List.append_nil] at hread
    exact { hs with
      frames := hs.frames.trans hmove.sent
      counted := hmove.counted hs.counted
      waits := by
        rw [hread]
        exact hmove.waits hs.counted hs.waits fun _ => hs.numbered
      shown := by
        refine ⟨[], ?_, fun _ => rfl⟩
        rw [hread, List.append_nil, hmove.verdicts]
        exact hshown
      joined := hjoined
      first := hs.first.imp fun _ hfirst => hfirst.trans hmove.sent
      greeting := hgreeting _
      within := hwithin }
  | true =>
    rw [hreply, if_pos rfl] at hread
    obtain ⟨x, hx⟩ := next_replied hread
      (read_initial (w := { w with tui := w.tui.recv (wireFrame num f) t fine, heard := w.heard + 1 })
        hs.replies)
    obtain ⟨hxbook, hxreply⟩ := mem_replied (List.mem_of_getElem? hx)
    obtain ⟨shown, hcore, hwaits, hfull⟩ := hs.hear_core hl hx hreply t fine
    have hsent : (w.tui.recv (wireFrame num f) t fine).sent = w.tui.sent := congrArg Core.sent hcore
    have hcounted : (w.tui.recv (wireFrame num f) t fine).core.Counted := by
      rw [hcore]
      exact ⟨hs.counted.speaks, hs.counted.distinct, hs.counted.within, hs.counted.around⟩
    have hverdicts : (w.tui.recv (wireFrame num f) t fine).core.verdicts = w.tui.core.verdicts ++ shown :=
      congrArg Core.verdicts hcore
    exact { hs with
      frames := by
        rw [hsent]
        exact hs.frames
      counted := hcounted
      waits := by
        rw [hread, List.map_append]
        exact hwaits
      shown := by
        rw [hread, List.length_append, List.length_singleton, List.take_add_one, hx, Option.toList_some,
          List.filterMap_append, hshown, hverdicts]
        rcases hfull with rfl | ⟨rfl, hdeaf⟩
        · refine ⟨[], ?_, fun _ => rfl⟩
          rw [List.append_nil]
          congr 1
        · refine ⟨(x.verdict num).toList, ?_, fun hl' => ?_⟩
          · rw [List.append_nil]
            congr 1
          · cases hdeaf.symm.trans hl'
      joined := hjoined
      first := by
        rw [hsent]
        exact hs.first
      greeting := hgreeting _
      within := hwithin }

/-! ### A run -/

variable (env records now wall num c) in
theorem sound_start (me : Str) (history : List Str) :
    (start (F := F) env records now wall me history).Sound env records now wall num c where
  run := ⟨[], rfl⟩
  frames := List.nil_prefix
  fits := nofun
  replies := rfl
  records := List.nil_sublist _
  counted :=
    { speaks := fun frame hframe => by
        rw [List.mem_singleton.mp hframe]
        exact .hello me
      distinct := List.nodup_nil
      within := nofun
      around := ⟨le_refl _, le_refl _⟩ }
  waits := fun i e => ⟨nofun, fun h => nomatch h.1⟩
  shown := ⟨[], rfl, fun _ => rfl⟩
  joined := by
    rintro (h | h | h)
    · cases h
    · cases h
    · exact absurd rfl h
  first := ⟨me, List.prefix_rfl⟩
  greeting := fun _ => ⟨rfl, rfl⟩
  within := le_refl _

/-- **A step keeps the room sound**, whoever takes it. -/
theorem Sound.step (hs : w.Sound env records now wall num c) {e : Event F} (hlaw : w.Lawful c e) :
    (w.step env desk num c e).Sound env records now wall num c := by
  cases e with
  | seat a => exact hs.seat a
  | read t fine =>
    rw [Room.step]
    split
    · next f hf =>
      split
      · next hl => exact hs.hear hf hl t fine
      · exact hs
    · exact hs
  | serve =>
    rw [Room.step]
    split
    · next frame hframe => exact hs.serve hlaw hframe
    · exact hs
  | hub op =>
    refine hs.others ?_
    rintro d frame rfl
    exact hlaw

/-- Everything is sent, handled and read, and nothing was lost. -/
structure Settled (c : ClientId) (w : Room F) : Prop where
  idle : w.tui.rest = []
  handled : w.book.length = w.tui.sent.length
  heard : w.heard = (reached c w.hub.wire.log).length
  unbroken : ∀ name f, Effect.send name c false f ∉ w.hub.wire.log
  listens : w.tui.listens = true

/-- In a settled room every reply has been read. -/
theorem Sound.read_all (hs : w.Sound env records now wall num c) (h : w.Settled c) :
    w.read c = w.book.filterMap Entry.reply := by
  rw [read, h.heard, List.take_length, reached_eq h.unbroken, hs.replies]

/-- In a settled room no say waits. -/
theorem Sound.answered_all (hs : w.Sound env records now wall num c) (h : w.Settled c) (i : Int) :
    w.tui.pending.get? i = none := by
  cases hget : w.tui.pending.get? i with
  | none => rfl
  | some e =>
    exfalso
    obtain ⟨hsay, hopen⟩ := (hs.waits i e).mp hget
    obtain ⟨frame, hframe, hecho⟩ := mem_uttered.mp hsay
    have hsent : w.book.map Entry.frame = w.tui.sent :=
      hs.frames.eq_of_length (by rw [List.length_map, h.handled])
    have hmem : frame ∈ w.book.map Entry.frame := by
      rw [hsent]
      simpa only [Tui.core, h.idle, List.append_nil] using hframe
    obtain ⟨x, hx, rfl⟩ := List.mem_map.mp hmem
    -- the say is in the book with a reply under its number, which the seat has read
    have hunbroken : ¬∃ name f, Effect.send name c false f ∈ w.hub.wire.log := by
      rintro ⟨name, f, hlost⟩
      exact h.unbroken name f hlost
    obtain ⟨f, hf, hanswers⟩ := (hs.fits x hx).answers hecho hunbroken
    refine hopen (List.mem_map.mpr ⟨f, ?_, hanswers⟩)
    rw [hs.read_all h]
    exact List.mem_filterMap.mpr ⟨x, hx, hf⟩

end Room

/-- **What a seat shows is what the hub has made of it.**  The hub handles the frames of the seat in the
order in which they were sent, whatever else it does; it records what they say in this order, as it was
meant, or refuses it; and the screen shows this of each of them, in this order and as far as the seat has
read, nothing else and nothing twice.  When everything is read, everything is shown and nothing waits. -/
theorem shown_is_recorded (env : Env) (desk : Desk) (num : Rat → Json F) (c : ClientId) (records : List MsgRec)
    (now wall : Rat) (me : Str) (history : List Str) (es : List (Room.Event F))
    (hlaw : Run.Always (Room.step env desk num c) (Room.Lawful c) (Room.start env records now wall me history)
      es) :
    let w := Run.after (Room.step env desk num c) (Room.start env records now wall me history) es
    w.book.map Entry.frame <+: w.tui.sent ∧
      (w.book.filterMap Entry.said).Sublist (said w.hub.wire.log) ∧
      (∀ x ∈ w.book, ∀ i e, echoOf x.frame = some (i, e) →
        (∃ r, x.said = some r ∧ spoken r = e) ∨
          x.said = none ∧ ∃ code detail seq retry, x.reply = some (.err code detail seq retry)) ∧
      w.tui.screen.filterMap Drawn.verdict <+: w.book.filterMap (Entry.verdict num) ∧
      (w.Settled c → w.tui.screen.filterMap Drawn.verdict = w.book.filterMap (Entry.verdict num) ∧
        ∀ i, w.tui.pending.get? i = none) := by
  intro w
  have hs : w.Sound env records now wall num c :=
    Run.invariant (I := fun w : Room F => w.Sound env records now wall num c) (fun _ _ hs hl => hs.step hl)
      (Room.sound_start env records now wall num c me history) hlaw
  obtain ⟨lost, hshown, hlost⟩ := hs.shown
  refine ⟨hs.frames, hs.records, fun x hx i e hecho => (hs.fits x hx).fate hecho, ?_, fun h => ⟨?_, ?_⟩⟩
  · rw [← verdicts_replied]
    exact (hshown ▸ List.prefix_append _ _ : w.tui.core.verdicts <+: _).trans
      ((List.take_prefix _ _).filterMap _)
  · have hlength : (w.read c).length = (replied w.book).length := by
      rw [hs.read_all h, ← map_replied, List.length_map]
    rw [hlength, List.take_length, verdicts_replied, hlost h.listens, List.append_nil] at hshown
    exact hshown.symm
  · exact hs.answered_all h

/-- A line is typed, handled, answered and shown. -/
theorem shown_is_recorded_line :
    let es : List (Room.Event PyJson.Token) := [.serve, .read .nan true,
      .seat (.round { data := some [0x68, 0x69, 0x0D] }), .seat (.press 10 [] true),
      .seat (.press 10 [] true), .seat (.press 10 [] true), .seat (.send true), .serve, .read .nan true]
    let w := Run.after (Room.step .still bareDesk (fun _ => .null) 0) (Room.start .still [] 0 0 (str "frank") [])
      es
    w.tui.screen.filterMap Drawn.verdict = [.said (str "*", str "note", str "hi", false) 0 (some 1)] ∧
      ∀ i, w.tui.pending.get? i = none := by
  intro es w
  have hlaw : Run.Always (Room.step .still bareDesk (fun _ => .null) 0) (Room.Lawful 0)
      (Room.start .still [] 0 0 (str "frank") []) es := by
    refine ⟨?_, trivial, trivial, trivial, trivial, trivial, trivial, ?_, trivial, trivial⟩
    · show Hub.Owns _ 0
      decide +kernel
    · show Hub.Owns _ 0
      decide +kernel
  have hup : (sendsTo 0 w.hub.wire.log).all Prod.fst = true := by
    decide +kernel
  have hsettled : w.Settled 0 := by
    refine ⟨?_, ?_, ?_, ?_, ?_⟩
    · exact List.isEmpty_iff.mp (by decide +kernel)
    · decide +kernel
    · decide +kernel
    · intro name f hmem
      have hsent : (false, f) ∈ sendsTo 0 w.hub.wire.log := List.mem_filterMap.mpr ⟨_, hmem, rfl⟩
      cases List.all_eq_true.mp hup _ hsent
    · decide +kernel
  obtain ⟨hverdicts, hnone⟩ := (shown_is_recorded .still bareDesk (fun _ => .null) 0 [] 0 0 (str "frank") [] es
    hlaw).2.2.2.2 hsettled
  refine ⟨hverdicts.trans ?_, hnone⟩
  rfl

end

end Moot.Spoke
