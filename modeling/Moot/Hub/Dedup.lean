import Moot.Hub.Wait
import Moot.Hub.Names
import Moot.Lib.Ghost
import Moot.Lib.Window

/-!
# Duplicates

What the dedup window of a registration knows is what was accepted from it since it
was made: the window travels with the registration, through disconnects and
reclaims.  The key of a say joins its recipient, its privacy and its text with
newlines; since the recipient is a registered name or `*`, no two says share a key.

Proved here: `dedupText_inj` and `dedup_is_exact`, when a say is refused as a
duplicate.
-/

namespace Moot
open Py Proto

/-! ## Keys -/

/-- A recipient that passes the checks before the dedup window. -/
def Recipient (s : Str) : Prop := s = everyone ∨ nameRe s = true

/-- A recipient has no newline but a final one. -/
theorem Recipient.split {s : Str} (hs : Recipient s) : ∃ t, CodePoint.scalar '\n' ∉ t ∧
    (s = t ∨ s = t ++ [.scalar '\n']) := by
  have hname : ∀ {t : Str}, isProtocolName t = true → CodePoint.scalar '\n' ∉ t := by
    intro t ht hmem
    cases t with
    | nil => cases hmem
    | cons p t =>
      simp only [isProtocolName, Bool.and_eq_true] at ht
      rcases List.mem_cons.mp hmem with rfl | hmem
      · exact absurd ht.1.1 (by decide)
      · exact absurd (List.all_eq_true.mp ht.1.2 _ hmem) (by decide)
  rcases hs with rfl | hs
  · exact ⟨everyone, by decide, Or.inl rfl⟩
  · rw [nameRe, Bool.or_eq_true, Bool.and_eq_true, decide_eq_true_eq] at hs
    rcases hs with hs | ⟨hlast, hs⟩
    · exact ⟨s, hname hs, Or.inl rfl⟩
    · obtain ⟨t, rfl⟩ := List.getLast?_eq_some_iff.mp hlast
      rw [List.dropLast_concat] at hs
      exact ⟨t, hname hs, Or.inr rfl⟩

/-- What stands before the first newline is determined. -/
theorem append_newline_inj {s t x y : Str} (hs : CodePoint.scalar '\n' ∉ s)
    (ht : CodePoint.scalar '\n' ∉ t) (h : s ++ .scalar '\n' :: x = t ++ .scalar '\n' :: y) :
    s = t ∧ x = y := by
  induction s generalizing t with
  | nil =>
    cases t with
    | nil => exact ⟨rfl, (List.cons.inj h).2⟩
    | cons p t =>
      obtain ⟨rfl, -⟩ := List.cons.inj h
      exact absurd (List.mem_cons_self ..) ht
  | cons p s ih =>
    cases t with
    | nil =>
      obtain ⟨rfl, -⟩ := List.cons.inj h
      exact absurd (List.mem_cons_self ..) hs
    | cons q t =>
      obtain ⟨rfl, hrest⟩ := List.cons.inj h
      obtain ⟨rfl, rfl⟩ := ih (fun hmem => hs (List.mem_cons_of_mem _ hmem))
        (fun hmem => ht (List.mem_cons_of_mem _ hmem)) hrest
      exact ⟨rfl, rfl⟩

/-- **No two says share a key text**, whatever newlines and digits their texts hold. -/
theorem dedupText_inj {a a' x x' : Str} {b b' : Bool} (ha : Recipient a) (ha' : Recipient a')
    (h : dedupText a x b = dedupText a' x' b') : a = a' ∧ b = b' ∧ x = x' := by
  have hkey : ∀ a x b, dedupText a x b =
      a ++ .scalar '\n' :: (CodePoint.scalar (if b then '1' else '0') :: .scalar '\n' :: x) := by
    intro a x b
    cases b <;> simp [dedupText, str, ofChars]
  have hdigit : ∀ b : Bool, CodePoint.scalar (if b then '1' else '0') ≠ .scalar '\n' := by decide
  have hflag : ∀ b b' : Bool, CodePoint.scalar (if b then '1' else '0') =
      .scalar (if b' then '1' else '0') → b = b' := by decide
  rw [hkey, hkey] at h
  obtain ⟨s, hs, hsa⟩ := ha.split
  obtain ⟨t, ht, hta⟩ := ha'.split
  rcases hsa with rfl | rfl <;> rcases hta with rfl | rfl
  · obtain ⟨rfl, hrest⟩ := append_newline_inj hs ht h
    obtain ⟨hb, hx⟩ := List.cons.inj hrest
    exact ⟨rfl, hflag _ _ hb, (List.cons.inj hx).2⟩
  · -- the newline after the one recipient would be the digit after the other
    rw [List.append_assoc] at h
    obtain ⟨-, hrest⟩ := append_newline_inj hs ht h
    exact absurd (List.cons.inj hrest).1 (hdigit b)
  · rw [List.append_assoc] at h
    obtain ⟨-, hrest⟩ := append_newline_inj hs ht h
    exact absurd (List.cons.inj hrest).1.symm (hdigit b')
  · rw [List.append_assoc, List.append_assoc] at h
    obtain ⟨rfl, hrest⟩ := append_newline_inj hs ht h
    obtain ⟨hb, hx⟩ := List.cons.inj (List.cons.inj hrest).2
    exact ⟨rfl, hflag _ _ hb, (List.cons.inj hx).2⟩

namespace Hub

/-! ## What was accepted -/

/-- The say of the agent `n` that the operation gets accepted. -/
def acceptedSay {F : Type} [PyJson.PyFloat F] (env : Env) (n : Str) (h : Hub) (op : Op F) :
    Option Say :=
  match op with
  | .handle c frame =>
    match validate env.isPrintable frame, h.get? n with
    | .ok (.say f), some p =>
      if (h.wire.clients c).name = n ∧ p.isObserver = false ∧ (refusal env h p f).isNone = true then
        some f
      else none
    | _, _ => none
  | _ => none

/-- The says accepted from the registration `n`, with their times: those so far and the one that
the operation gets accepted, none once the registration is gone. -/
def writeAccepted {F : Type} [PyJson.PyFloat F] (env : Env) (n : Str) (past : List (Say × Rat))
    (h : Hub) (op : Op F) : List (Say × Rat) :=
  if ((h.step env op).box? n).isNone then []
  else past ++ ((acceptedSay env n h op).map fun f => (f, h.now)).toList

/-- The says accepted from the registration that `n` has after the run. -/
def acceptedSince {F : Type} [PyJson.PyFloat F] (env : Env) (n : Str) (h : Hub) (ops : List (Op F)) :
    List (Say × Rat) :=
  (Run.after (Run.withGhost (Hub.step env) (writeAccepted env n)) ([], h) ops).1

/-- The window of `n` holds the keys of the says accepted from it. -/
structure Exact (env : Env) (n : Str) (past : List (Say × Rat)) (h : Hub) : Prop where
  gone : h.box? n = none → past = []
  window : ∀ q, h.box? n = some q → q.dedup.window = env.config.dedupWindow
  tracks : ∀ q, h.box? n = some q → Window.Tracks env.config.dedupWindow h.now
    (past.map fun e => (dedupKey env e.1, e.2)) q.dedup.seen.get?
  recipients : ∀ e ∈ past, Recipient e.1.addressee

section
variable (env : Env) {n : Str} {h : Hub}

theorem get?_expire (d : DedupWindow) (now : Rat) :
    (d.expire now).seen.get? = Window.expire d.window now d.seen.get? := by
  funext k
  refine Option.ext fun s => ?_
  rw [Window.expire_eq_some]
  show (d.seen.filter _).get? k = some s ↔ _
  rw [Dict.get?_filter_eq_some_iff]
  simp

theorem see_iff (d : DedupWindow) (now : Rat) (key : Str) :
    (d.see now key).1 = true ↔ (Window.expire d.window now d.seen.get? key).isSome = true := by
  rw [← get?_expire]
  show _ ↔ (d.expire now).seen.contains key = true
  unfold DedupWindow.see
  simp only
  split
  · next hseen => exact ⟨fun _ => hseen, fun _ => rfl⟩
  · next hnew => exact ⟨fun h => absurd h Bool.false_ne_true, fun h => absurd h hnew⟩

theorem get?_see (d : DedupWindow) (now : Rat) (key : Str) (hnew : (d.see now key).1 = false) :
    (d.see now key).2.seen.get? =
      Function.update (Window.expire d.window now d.seen.get?) key (some now) := by
  rw [← get?_expire]
  unfold DedupWindow.see at hnew ⊢
  simp only at hnew ⊢
  split at hnew
  · cases hnew
  · next habsent =>
    rw [if_neg habsent]
    funext k
    by_cases hk : k = key
    · subst hk
      rw [Function.update_self]
      exact Dict.get?_insert_self ..
    · rw [Function.update_of_ne hk]
      exact Dict.get?_insert_of_ne _ hk _

@[simp] theorem see_window (d : DedupWindow) (now : Rat) (key : Str) :
    (d.see now key).2.window = d.window := by
  unfold DedupWindow.see
  simp only
  split <;> rfl

/-! ## Reaching the window -/

/-- A say that reaches the dedup check is refused by it, or accepted. -/
def ReachesDedup (env : Env) (h : Hub) (p : Participant) (f : Say) : Prop :=
  p.isObserver = false ∧ ((refusal env h p f).map Prod.fst = none ∨
    (refusal env h p f).map Prod.fst = some errDuplicate)

variable {env}

/-- What the check says. -/
theorem ReachesDedup.duplicate_iff {p : Participant} {f : Say} (hr : ReachesDedup env h p f) :
    (refusal env h p f).map Prod.fst = some errDuplicate ↔
      (p.dedup.see h.now (dedupKey env f)).1 = true := by
  obtain ⟨hagent, hcode⟩ := hr
  unfold refusal at hcode ⊢
  split_ifs at hcode ⊢ with hfrozen hmuted hunknown hobs hrate hdup
  · exact absurd hcode (by simp; decide)
  · exact absurd hcode (by simp; decide)
  · exact absurd hcode (by simp; decide)
  · rw [hagent] at hobs
    cases hobs
  · exact absurd hcode (by simp; decide)
  · exact ⟨fun _ => hdup, fun _ => rfl⟩
  · exact ⟨fun heq => (by cases heq), fun heq => absurd heq hdup⟩

/-- Its recipient is registered, or everyone. -/
theorem ReachesDedup.recipient (hnames : ∀ m q, h.box? m = some q → nameRe m = true)
    {p : Participant} {f : Say} (hr : ReachesDedup env h p f) : Recipient f.addressee := by
  obtain ⟨-, hcode⟩ := hr
  by_cases hall : f.addressee = everyone
  · exact Or.inl hall
  · refine Or.inr ?_
    cases hcontains : h.participants.contains f.addressee with
    | true =>
      obtain ⟨q, hq⟩ := Dict.contains_iff.mp hcontains
      exact hnames _ q (box?_of_get? hq)
    | false =>
      unfold refusal at hcode
      split_ifs at hcode with hfrozen hmuted hunknown
      · exact absurd hcode (by simp; decide)
      · exact absurd hcode (by simp; decide)
      · exact absurd hcode (by simp; decide)
      all_goals exact absurd ⟨hall, hcontains⟩ hunknown

/-! ## One operation -/

/-- What a say does to the dedup window of its sender. -/
theorem spent_dedup (p : Participant) (f : Say) :
    (p.isObserver = false ∧ refusal env h p f = none ∧
        (p.dedup.see h.now (dedupKey env f)).1 = false ∧
        (spent env h p f).dedup = (p.dedup.see h.now (dedupKey env f)).2) ∨
      (¬ (p.isObserver = false ∧ refusal env h p f = none) ∧
        ((spent env h p f).dedup = p.dedup ∨
          (spent env h p f).dedup = p.dedup.expire h.now)) := by
  cases hr : refusal env h p f with
  | none =>
    cases hobs : p.isObserver with
    | false =>
      have hreach : ReachesDedup env h p f := ⟨hobs, Or.inl (by rw [hr]; rfl)⟩
      have hnew : (p.dedup.see h.now (dedupKey env f)).1 = false := by
        rw [Bool.eq_false_iff, ne_eq, ← hreach.duplicate_iff, hr]
        exact fun h => nomatch h
      refine Or.inl ⟨rfl, rfl, hnew, ?_⟩
      unfold spent
      rw [hr, hobs]
      rfl
    | true =>
      refine Or.inr ⟨fun h => (nomatch h.1), Or.inl ?_⟩
      unfold spent
      rw [hr, hobs]
      rfl
  | some refused =>
    refine Or.inr ⟨fun h => (nomatch h.2), ?_⟩
    unfold spent
    rw [hr]
    simp only [charged]
    split
    · exact Or.inl rfl
    · split
      · exact Or.inr rfl
      · exact Or.inl rfl

variable {F : Type} [PyJson.PyFloat F]

theorem acceptedSay_of_silence {op : Op F} (hop : Allowed env (notSayOf n) h op) :
    acceptedSay env n h op = none := by
  cases op with
  | handle c frame =>
    cases hv : validate env.isPrintable frame with
    | error e => simp only [acceptedSay, hv]
    | ok f =>
      cases f with
      | say f =>
        cases hp : h.get? n with
        | none => simp only [acceptedSay, hv, hp]
        | some p =>
          have hne : (h.wire.clients c).name ≠ n := fun hname =>
            hop c frame _ rfl hv p (by rw [hname]; exact hp) f rfl hname
          simp only [acceptedSay, hv, hp, hne, false_and, if_false]
      | _ => simp only [acceptedSay, hv]
  | _ => rfl

theorem acceptedSay_of_say {c : ClientId} {frame : Obj F} {f : Say}
    (hv : validate env.isPrintable frame = .ok (.say f)) (hname : (h.wire.clients c).name = n)
    {p : Participant} (hp : h.get? n = some p) :
    acceptedSay env n h (.handle c frame) =
      if p.isObserver = false ∧ refusal env h p f = none then some f else none := by
  simp only [acceptedSay, hv, hp, hname, true_and, Option.isNone_iff_eq_none]

theorem writeAccepted_kept {past : List (Say × Rat)} {op : Op F} {q : Participant}
    (hq : (h.step env op).box? n = some q) : writeAccepted env n past h op =
      past ++ ((acceptedSay env n h op).map fun f => (f, h.now)).toList := by
  rw [writeAccepted, if_neg (by simp [hq])]

theorem writeAccepted_gone {past : List (Say × Rat)} {op : Op F}
    (hq : (h.step env op).box? n = none) : writeAccepted env n past h op = [] := by
  rw [writeAccepted, if_pos (by simp [hq])]

theorem Exact.nothing {past : List (Say × Rat)} {op : Op F} (hq : (h.step env op).box? n = none) :
    Exact env n (writeAccepted env n past h op) (h.step env op) := by
  rw [writeAccepted_gone hq]
  refine ⟨fun _ => rfl, fun q h => ?_, fun q h => ?_, fun e he => nomatch he⟩
  · rw [hq] at h
    cases h
  · rw [hq] at h
    cases h

/-- Where nothing is accepted, the window has to be as it was, or expired. -/
theorem Exact.quiet {past : List (Say × Rat)} (hx : Exact env n past h) {op : Op F}
    {q q' : Participant} (hq : h.box? n = some q) (hq' : (h.step env op).box? n = some q')
    (hforward : h.now ≤ (h.step env op).now) (hsay : acceptedSay env n h op = none)
    (hdedup : q'.dedup = q.dedup ∨ q'.dedup = q.dedup.expire h.now) :
    Exact env n (writeAccepted env n past h op) (h.step env op) := by
  have htracks := hx.tracks q hq
  have hsame : q'.dedup.window = env.config.dedupWindow ∧ Window.Tracks env.config.dedupWindow h.now
      (past.map fun e => (dedupKey env e.1, e.2)) q'.dedup.seen.get? := by
    rcases hdedup with heq | heq
    · rw [heq]
      exact ⟨hx.window q hq, htracks⟩
    · rw [heq, get?_expire, hx.window q hq]
      exact ⟨hx.window q hq, htracks.expire⟩
  rw [writeAccepted_kept hq', hsay, Option.map_none, Option.toList_none, List.append_nil]
  refine ⟨fun hnone => ?_, fun r hr => ?_, fun r hr => ?_, hx.recipients⟩
  · rw [hq'] at hnone
    cases hnone
  · rw [hq', Option.some.injEq] at hr
    rw [← hr, hsame.1]
  · rw [hq', Option.some.injEq] at hr
    rw [← hr]
    exact hsame.2.later hforward

/-- **One operation** keeps the window exact. -/
theorem exact_step (hw : h.Wf) (hnames : ∀ m q, h.box? m = some q → nameRe m = true)
    {past : List (Say × Rat)} (hx : Exact env n past h) {op : Op F} (hop : Forward h op) :
    Exact env n (writeAccepted env n past h op) (h.step env op) := by
  have hforward := hop.now_le env hw
  cases paid_step env hw n op with
  | saved hsilent hsaved =>
    have hsay := acceptedSay_of_silence hsilent
    cases hsaved with
    | kept q q' found found' unspent =>
      exact hx.quiet found found' hforward hsay (Or.inl unspent.dedup)
    | absent _ away' => exact .nothing away'
    | fresh q' away found fresh =>
      rw [writeAccepted_kept found, hsay, hx.gone away]
      refine ⟨fun _ => rfl, fun r hr => ?_, fun r hr => ?_, fun e he => nomatch he⟩
      · rw [found, Option.some.injEq] at hr
        rw [← hr, fresh.dedup]
        rfl
      · rw [found, Option.some.injEq] at hr
        rw [← hr, fresh.dedup]
        exact Window.Tracks.empty _ _
  | expired gone => exact .nothing gone
  | said c frame f p q handled valid name sender found _ purse =>
    subst handled
    have hdedup : q.dedup = (spent env h p f).dedup := congrArg Purse.dedup purse
    have hp := box?_of_get? sender
    have hq := box?_of_get? found
    rcases spent_dedup (h := h) p f with ⟨hagent, hr, hnew, hspent⟩ | ⟨hno, hspent⟩
    · have hnow : (h.step env (.handle c frame)).now = h.now := now_step hw (by simp)
      have hreach : ReachesDedup env h p f := ⟨hagent, Or.inl (by rw [hr]; rfl)⟩
      have hwindow := hx.window p hp
      rw [hspent] at hdedup
      rw [writeAccepted_kept hq, acceptedSay_of_say valid name sender, if_pos ⟨hagent, hr⟩]
      refine ⟨fun hnone => ?_, fun r hr => ?_, fun r hr => ?_, fun e he => ?_⟩
      · rw [hq] at hnone
        cases hnone
      · rw [hq, Option.some.injEq] at hr
        rw [← hr, hdedup, see_window, hwindow]
      · rw [hq, Option.some.injEq] at hr
        rw [← hr, hdedup, get?_see _ _ _ hnew, hwindow, hnow, List.map_append]
        refine (hx.tracks p hp).take_in ?_
        rw [← hwindow, ← Option.not_isSome_iff_eq_none, ← see_iff, hnew]
        exact Bool.false_ne_true
      · rcases List.mem_append.mp he with he | he
        · exact hx.recipients e he
        · rw [List.mem_singleton.mp he]
          exact hreach.recipient hnames
    · refine hx.quiet hp hq hforward ?_ ?_
      · rw [acceptedSay_of_say valid name sender, if_neg hno]
      · rw [hdedup]
        exact hspent

/-! ## Runs -/

/-- A registered name has been checked. -/
theorem sources_checked : Sources anyFrame (fun n => nameRe n = true) fun _ => True where
  hello f _ := f.name_ok.2
  tagged _ _ _ := trivial
  recorded _ _ := trivial
  said _ _ _ _ _ := trivial
  goal _ _ _ _ _ _ _ := trivial
  note _ _ _ _ _ _ := trivial
  dropped _ _ _ := trivial
  omitted _ := trivial

theorem checked_step (hw : h.Wf) (hc : Carries (fun n => nameRe n = true) (fun _ => True) h)
    (op : Op F) : Carries (fun n => nameRe n = true) (fun _ => True) (h.step env op) :=
  (Carries.handled env sources_checked).step hw hc (allowed_any h op) (fun _ => hc.pruneDead)
    fun _ _ _ => ⟨hc.names, hc.mail, hc.recent, hc.frames⟩

variable (env) in
/-- **Dedup is exact over reconnects.**  If the hash is injective and the monotonic clock does not go
back, then a say of `n` that reaches the dedup check is refused as a duplicate exactly if a say with
the same recipient, privacy and text was accepted from the same registration within the window. -/
theorem dedup_is_exact (hsha : Function.Injective env.sha256) (n : Str) (records : List MsgRec)
    (now wall : Rat) (ops : List (Op F))
    (hops : Run.Always (Hub.step env) Forward (init env records now wall) ops) (p : Participant)
    (f : Say) :
    let h := Run.after (Hub.step env) (init env records now wall) ops
    h.get? n = some p → ReachesDedup env h p f →
      ((refusal env h p f).map Prod.fst = some errDuplicate ↔
        ∃ g s, (g, s) ∈ acceptedSince env n (init env records now wall) ops ∧
          g.addressee = f.addressee ∧ g.priv = f.priv ∧ g.text = f.text ∧
            h.now - env.config.dedupWindow ≤ s ∧ s ≤ h.now) := by
  intro h hp hreach
  have hghost : Run.Always (Run.withGhost (Hub.step env) (writeAccepted env n))
      (fun x op => Forward x.2 op) ([], init env records now wall) ops := hops.withGhost []
  have hall := Run.invariant (I := fun x : List (Say × Rat) × Hub => x.2.Wf ∧
      Carries (fun n => nameRe n = true) (fun _ => True) x.2 ∧ Exact env n x.1 x.2)
    (fun x op hx hop => ⟨hx.1.step env op, checked_step hx.1 hx.2.1 op,
      exact_step hx.1 hx.2.1.names hx.2.2 hop⟩)
    (s := ([], init env records now wall))
    ⟨wf_init env records now wall, carries_init (fun _ _ => trivial) now wall,
      fun _ => rfl, fun _ hq => (nomatch hq), fun _ hq => (nomatch hq), fun _ he => (nomatch he)⟩
    hghost
  rw [Run.after_withGhost] at hall
  obtain ⟨-, hnames, hexact⟩ := hall
  have hbox := box?_of_get? hp
  rw [hreach.duplicate_iff, see_iff, hexact.window p hbox, (hexact.tracks p hbox).recent_iff]
  constructor
  · rintro ⟨s, hmem, hfrom, hto⟩
    obtain ⟨⟨g, s'⟩, hg, heq⟩ := List.mem_map.mp hmem
    obtain ⟨hkey, rfl⟩ := Prod.mk.inj heq
    obtain ⟨hto', hpriv, htext⟩ := dedupText_inj (hexact.recipients _ hg)
      (hreach.recipient hnames.names) (hsha hkey)
    exact ⟨g, s', hg, hto', hpriv, htext, hfrom, hto⟩
  · rintro ⟨g, s, hg, hto', hpriv, htext, hfrom, hto⟩
    refine ⟨s, List.mem_map.mpr ⟨(g, s), hg, ?_⟩, hfrom, hto⟩
    simp only [dedupKey, hto', hpriv, htext]

end

/-- Alice says "d", reconnects, and 120 seconds have gone by. -/
def returns : List (Op PyJson.Token) :=
  [.handle 0 (helloFrame "alice" "agent" []), .handle 0 fourthFrame, .disconnect 0,
    .handle 1 (helloFrame "alice" "agent" []), .clock 120 120]

theorem dedup_is_exact_returns :
    ∃ p, (Run.after (Hub.step .still) (init .still [] 0 0) returns).get? (str "alice") = some p ∧
      ((refusal .still (Run.after (Hub.step .still) (init .still [] 0 0) returns) p fourth).map
          Prod.fst = some errDuplicate ↔
        ∃ g s, (g, s) ∈ acceptedSince .still (str "alice") (init .still [] 0 0) returns ∧
          g.addressee = fourth.addressee ∧ g.priv = fourth.priv ∧ g.text = fourth.text ∧
            (Run.after (Hub.step .still) (init .still [] 0 0) returns).now - 120 ≤ s ∧
              s ≤ (Run.after (Hub.step .still) (init .still [] 0 0) returns).now) := by
  have hall : ((Run.after (Hub.step .still) (init .still [] 0 0) returns).get?
      (str "alice")).map (fun p => (p.isObserver, (refusal .still (Run.after (Hub.step .still)
        (init .still [] 0 0) returns) p fourth).map Prod.fst)) =
      some (false, some errDuplicate) := by decide +kernel
  obtain ⟨p, hp, heq⟩ := Option.map_eq_some_iff.mp hall
  obtain ⟨hagent, hcode⟩ := Prod.mk.inj heq
  refine ⟨p, hp, dedup_is_exact .still (fun _ _ h => h) (str "alice") [] 0 0 returns
    ⟨?_, ?_, ?_, ?_, ?_, trivial⟩ p fourth hp ⟨hagent, Or.inr hcode⟩⟩
  · rintro _ _ ⟨⟩
  · rintro _ _ ⟨⟩
  · rintro _ _ ⟨⟩
  · rintro _ _ ⟨⟩
  · rintro _ _ ⟨⟩
    decide +kernel

end Hub

end Moot
