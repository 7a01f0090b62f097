import Moot.Hub.Rate

/-!
# What an operation spends

Only a say that reaches the checks of its sender spends anything of the sender's
purse, and what it spends is read off the state before it.

Proved here: `paid_step`, what becomes of the purse of a name in one operation.
-/

namespace Moot
open Py Proto

namespace Hub

/-- The key of a say in the dedup window. -/
def dedupKey (env : Env) (f : Say) : Str := env.sha256 (dedupText f.addressee f.text f.priv)

/-- The purse of `p` after the checks of its say. -/
def spent (env : Env) (h : Hub) (p : Participant) (f : Say) : Purse :=
  match refusal env h p f with
  | none =>
    if p.isObserver then ⟨p.bucket, p.dedup, h.now⟩
    else ⟨(p.bucket.take h.now).2, (p.dedup.see h.now (dedupKey env f)).2, h.now⟩
  | some (code, _, _) => { (h.charged code p).purse with lastRx := h.now }

/-- The clock does not go back. -/
def Forward {F : Type} (h : Hub) (op : Op F) : Prop :=
  ∀ now wall, op = .clock now wall → h.now ≤ now

/-- What one operation does to the purse of `n`. -/
inductive Paid {F : Type} [PyJson.PyFloat F] (env : Env) (n : Str) (h : Hub) (op : Op F) (h' : Hub) :
    Prop
  | saved (silent : Allowed env (notSayOf n) h op) (saved : Saved env n h h')
  | expired (gone : h'.box? n = none) (d : Participant) (found : h.box? n = some d)
      (old : env.config.deadTtl < h.now - d.lastRx)
  | said (c : ClientId) (frame : Obj F) (f : Say) (p q : Participant) (handled : op = .handle c frame)
      (valid : validate env.isPrintable frame = .ok (.say f)) (name : (h.wire.clients c).name = n)
      (sender : h.get? n = some p) (found : h'.get? n = some q) (same : q.Same p)
      (purse : q.purse = spent env h p f)

section
variable (env : Env) {h : Hub}

/-- An observer's say is refused for its recipient only. -/
theorem refusal_observer {p : Participant} (hobs : p.isObserver = true) {f : Say}
    {code detail : Str} {r : Option Rat} (hr : refusal env h p f = some (code, detail, r)) :
    code = errUnknownRecipient := by
  unfold refusal at hr
  simp only [hobs, Bool.true_eq_false, false_and, if_false, if_true] at hr
  split at hr
  · exact (congrArg Prod.fst (Option.some.inj hr)).symm
  · cases hr

/-- An accepted say has gone through the checks of its sender. -/
theorem routeSay_spent {n : Str} {p : Participant} (hp : h.get? n = some p) {f : Say}
    (hr : refusal env h p f = none) :
    ∃ k : Hub, h.routeSay env n f = (true, k.accept env p f) ∧
      k.get? n = some { p with
        bucket := (spent env h p f).bucket, dedup := (spent env h p f).dedup } := by
  rw [routeSay, hp]
  have hspent : spent env h p f =
      if p.isObserver then ⟨p.bucket, p.dedup, h.now⟩
      else ⟨(p.bucket.take h.now).2, (p.dedup.see h.now (dedupKey env f)).2, h.now⟩ := by
    unfold spent
    rw [hr]
  rw [hspent]
  unfold refusal at hr
  simp only at hr ⊢
  split_ifs at hr with hfrozen hmuted hunknown hobs hrate hdup
  · rw [if_neg hfrozen, if_neg hmuted, if_neg hunknown, if_pos hobs, if_pos hobs]
    exact ⟨h, rfl, hp⟩
  · rw [if_neg hfrozen, if_neg hmuted, if_neg hunknown, if_neg hobs, if_neg hrate, if_neg hdup,
      if_neg hobs]
    refine ⟨_, rfl, ?_⟩
    rw [get?_modify_self]
    show (h.get? n).map _ = _
    rw [hp]
    rfl

theorem spent_lifeSign (n : Str) (p : Participant) (f : Say) :
    spent env (h.lifeSign n) { p with lastRx := h.now, awaitingPong := false } f =
      spent env h p f := by
  unfold spent
  rw [refusal_lifeSign]
  cases refusal env h p f with
  | none => rfl
  | some refused =>
    simp only [charged]
    split
    · rfl
    · split <;> rfl

variable {F : Type} [PyJson.PyFloat F]

/-- **What a say spends.** -/
theorem say_spends (hw : h.Wf) {n : Str} {c : ClientId} {frame : Obj F} {f : Say}
    (hv : validate env.isPrintable frame = .ok (.say f)) (hname : (h.wire.clients c).name = n)
    {p : Participant} (hp : h.get? n = some p) :
    ∃ q, (h.step env (.handle c frame)).get? n = some q ∧ q.Same p ∧
      q.purse = spent env h p f := by
  have hp₁ : (h.lifeSign n).get? n = some { p with lastRx := h.now, awaitingPong := false } := by
    rw [lifeSign, get?_modify_self, hp]
    rfl
  have hstep : h.step env (.handle c frame) = h.dispatch env c (.say f) := by
    show h.handle env c frame = _
    rw [handle, hv]
    rfl
  obtain ⟨q, hq, hsame⟩ := (roster_dispatch env hw.named c (f := .say f) (by simp)).same n p hp
  rw [hstep]
  refine ⟨q, hq, hsame, ?_⟩
  cases hr : refusal env h p f with
  | none =>
    obtain ⟨k, hroute, hk⟩ := routeSay_spent env hp₁ ((refusal_lifeSign env h n p f).trans hr)
    rw [spent_lifeSign] at hk
    have hsay : h.dispatch env c (.say f) =
        (k.accept env { p with lastRx := h.now, awaitingPong := false } f).settle env n f true := by
      unfold dispatch
      rw [hname]
      simp only [hp, handleSay, hroute]
    have hend := ((funded_accept env k { p with lastRx := h.now, awaitingPong := false } f).trans
      (funded_settle env _ n f true)).purse n
    rw [← hsay, hq, hk] at hend
    have hpurse := Option.some.inj hend
    have hrx : (spent env h p f).lastRx = h.now := by
      unfold spent
      rw [hr]
      simp only
      split <;> rfl
    rw [show q.purse = _ from hpurse, Participant.purse, ← hrx]
  | some refused =>
    obtain ⟨code, detail, r⟩ := refused
    obtain ⟨k, -, halone, hinfer⟩ := refused_dispatch env hw hname hp hr
    have hend := (funded_inferIdle env k n).purse n
    rw [← hinfer, hq, halone.sender p hp] at hend
    have hpurse := Option.some.inj hend
    rw [show q.purse = _ from hpurse]
    unfold spent
    rw [hr]
    simp only [charged]
    split
    · rfl
    · split <;> rfl

theorem Forward.now_le (hw : h.Wf) {op : Op F} (hop : Forward h op) :
    h.now ≤ (h.step env op).now := by
  by_cases hclock : ∃ now wall, op = .clock now wall
  · obtain ⟨now, wall, rfl⟩ := hclock
    exact hop now wall rfl
  · rw [now_step hw fun now wall heq => hclock ⟨now, wall, heq⟩]

/-- **What becomes of a purse** in one operation. -/
theorem paid_step (hw : h.Wf) (n : Str) (op : Op F) : Paid env n h op (h.step env op) := by
  rcases say_or_not env n h op with hsilent | ⟨c, frame, f, p, rfl, hv, hname, hp⟩
  · rcases saved_step hw hsilent with hsaved | ⟨-, hgone, d, hd, hold⟩
    · exact .saved hsilent hsaved
    · exact .expired hgone d hd hold
  · obtain ⟨q, hq, hsame, hpurse⟩ := say_spends env hw hv hname hp
    exact .said c frame f p q rfl hv hname hp hq hsame hpurse

end

end Hub

end Moot
