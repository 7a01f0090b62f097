import Moot.Hub.Refusal
import Moot.Lib.Budget

/-!
# The rate limit

A name's level is what its bucket holds once it is refilled; a name without a
registration has the level of a full bucket.  The bucket travels with the
registration, and one that expires is full again by then, so a reconnect never
raises the level.

Proved here: `rate_is_kept`, the says of an agent that pass the rate check in any
window of time.
-/

namespace Moot
open Py Proto

/-! ## One bucket -/

namespace TokenBucket

/-- The tokens at a reading of the clock. -/
def level (b : TokenBucket) (now : Rat) : Rat := (b.refill now).tokens

/-- The bucket is as its constructor and its methods leave it. -/
structure Sound (b : TokenBucket) (now : Rat) : Prop where
  nonneg : 0 ≤ b.tokens
  capped : b.tokens ≤ b.capacity
  past : b.last ≤ now
  rate : 0 ≤ b.refillPerSecond

variable {b : TokenBucket} {now now' : Rat}

theorem level_eq (hb : b.Sound now) :
    b.level now = min b.capacity (b.tokens + (now - b.last) * b.refillPerSecond) := by
  unfold level refill
  simp only
  split
  · rfl
  · next hpos =>
    have hzero : now - b.last = 0 := le_antisymm (not_lt.mp hpos) (sub_nonneg.mpr hb.past)
    rw [hzero, zero_mul, add_zero, min_eq_right hb.capped]

theorem level_nonneg (hb : b.Sound now) : 0 ≤ b.level now := by
  rw [level_eq hb]
  have hrefill : 0 ≤ (now - b.last) * b.refillPerSecond :=
    mul_nonneg (sub_nonneg.mpr hb.past) hb.rate
  exact le_min (hb.nonneg.trans hb.capped) (add_nonneg hb.nonneg hrefill)

theorem level_le (hb : b.Sound now) : b.level now ≤ b.capacity := by
  rw [level_eq hb]
  exact min_le_left _ _

@[simp] theorem refill_capacity (b : TokenBucket) (now : Rat) :
    (b.refill now).capacity = b.capacity := by
  unfold refill
  simp only
  split <;> rfl

@[simp] theorem refill_rate (b : TokenBucket) (now : Rat) :
    (b.refill now).refillPerSecond = b.refillPerSecond := by
  unfold refill
  simp only
  split <;> rfl

@[simp] theorem take_capacity (b : TokenBucket) (now : Rat) :
    (b.take now).2.capacity = b.capacity := by
  unfold take
  simp only
  split <;> exact refill_capacity b now

@[simp] theorem take_rate (b : TokenBucket) (now : Rat) :
    (b.take now).2.refillPerSecond = b.refillPerSecond := by
  unfold take
  simp only
  split <;> exact refill_rate b now

theorem Sound.later (hb : b.Sound now) (h : now ≤ now') : b.Sound now' :=
  ⟨hb.nonneg, hb.capped, hb.past.trans h, hb.rate⟩

/-- The clock goes on: the bucket refills at its rate. -/
theorem level_later (hb : b.Sound now) (h : now ≤ now') :
    b.level now' ≤ b.level now + b.refillPerSecond * (now' - now) := by
  rw [level_eq hb, level_eq (hb.later h), ← min_add_add_right]
  have hrefill : 0 ≤ b.refillPerSecond * (now' - now) := mul_nonneg hb.rate (sub_nonneg.mpr h)
  refine min_le_min (by linarith) (le_of_eq ?_)
  ring

theorem level_refill (b : TokenBucket) (now : Rat) : (b.refill now).level now = b.level now := by
  rw [level, Hub.refill_refill]
  rfl

theorem sound_refill (hb : b.Sound now) : (b.refill now).Sound now := by
  have hnonneg := level_nonneg hb
  have hle := level_le hb
  unfold level at hnonneg hle
  unfold refill at hnonneg hle ⊢
  simp only at hnonneg hle ⊢
  split at hle
  · next hpos =>
    rw [if_pos hpos] at hnonneg ⊢
    exact ⟨hnonneg, hle, le_rfl, hb.rate⟩
  · next hpos =>
    rw [if_neg hpos]
    exact hb

/-- A token that is taken lowers the level by one. -/
theorem level_take (hb : b.Sound now) (htake : (b.take now).1 = true) :
    1 + (b.take now).2.level now = b.level now ∧ (b.take now).2.Sound now := by
  have hs := sound_refill hb
  unfold take at htake ⊢
  simp only at htake ⊢
  split at htake
  · next htok =>
    rw [if_pos htok]
    have htaken : ({ b.refill now with tokens := (b.refill now).tokens - 1 } : TokenBucket).Sound
        now := ⟨by simpa using htok, by have := hs.capped; simp only; linarith, hs.past, hs.rate⟩
    refine ⟨?_, htaken⟩
    -- what was refilled just now is not refilled again
    have hagain : ({ b.refill now with tokens := (b.refill now).tokens - 1 } : TokenBucket).refill
        now = { b.refill now with tokens := (b.refill now).tokens - 1 } := by
      have hzero : ¬ now - (b.refill now).last > 0 := by
        unfold refill
        simp only
        split
        · simp
        · next hpos => exact hpos
      rw [refill]
      simp only [hzero, if_false]
    rw [level, hagain]
    show 1 + ((b.refill now).tokens - 1) = b.level now
    rw [level]
    ring
  · cases htake

/-- A bucket that was left alone for long enough is full. -/
theorem level_full (hb : b.Sound now) (hlong : b.capacity ≤ (now - b.last) * b.refillPerSecond) :
    b.level now = b.capacity := by
  rw [level_eq hb]
  exact min_eq_left (hlong.trans (le_add_of_nonneg_left hb.nonneg))

end TokenBucket

namespace Hub

/-! ## The level of a name -/

/-- What a bucket refills in a second. -/
def refillRate (env : Env) : Rat := env.config.rateMessages / env.config.rateWindow

/-- The level of the registration `n`. -/
def levelOf (env : Env) (n : Str) (h : Hub) : Rat :=
  match h.box? n with
  | none => env.config.rateBurst
  | some q => q.bucket.level h.now

/-- The registration is an agent's, and its bucket is in order. -/
structure Stock (env : Env) (q : Participant) (now : Rat) : Prop where
  agent : q.isObserver = false
  capacity : q.bucket.capacity = env.config.rateBurst
  rate : q.bucket.refillPerSecond = refillRate env
  sound : q.bucket.Sound q.lastRx
  heard : q.lastRx ≤ now

def Stocked (env : Env) (n : Str) (h : Hub) : Prop := ∀ q, h.box? n = some q → Stock env q h.now

/-- A hello under the name `n` is an agent's. -/
def agentHello (n : Str) : Filter :=
  fun m kind f => ∀ g, f = .hello g → m = n → kind ≠ observerKind

section
variable (env : Env) {n : Str} {h : Hub} {F : Type} [PyJson.PyFloat F]

theorem refillRate_nonneg : 0 ≤ refillRate env :=
  div_nonneg (Nat.cast_nonneg _) env.config.rateWindow_pos.le

theorem sound_new (now : Rat) :
    (TokenBucket.new env.config.rateBurst (refillRate env) now).Sound now :=
  ⟨Nat.cast_nonneg _, le_rfl, le_rfl, refillRate_nonneg env⟩

theorem Stock.now {q : Participant} {now : Rat} (hs : Stock env q now) : q.bucket.Sound now :=
  hs.sound.later hs.heard

/-- The name `n` stays an agent's. -/
theorem agent_step (hw : h.Wf) (hh : ∀ q, h.box? n = some q → q.isObserver = false) {op : Op F}
    (hop : Admitted env (agentHello n) h op) :
    ∀ q, (h.step env op).box? n = some q → q.isObserver = false := by
  have hroster : ∀ k k' : Hub, k.Roster k' → (∀ q, k.box? n = some q → q.isObserver = false) →
      ∀ q, k'.box? n = some q → q.isObserver = false := by
    intro k k' hr hk q hq
    cases hp : k'.get? n with
    | some p' =>
      obtain ⟨p, hp₀, hs⟩ := hr.back hp
      rw [box?_of_get? hp, Option.some.injEq] at hq
      subst hq
      rw [hs.isObserver]
      exact hk p (box?_of_get? hp₀)
    | none =>
      refine hk q ?_
      cases hp₀ : k.get? n with
      | some p =>
        obtain ⟨p', hp', -⟩ := hr.same n p hp₀
        rw [hp] at hp'
        cases hp'
      | none =>
        rw [box?_of_none hp, hr.dead] at hq
        rw [box?_of_none hp₀, hq]
  have hI : Handled env (agentHello n) fun k => ∀ q, k.box? n = some q → q.isObserver = false := by
    refine handled_of_roster env (fun k k' _ hr hk => hroster k k' hr hk)
      (fun k m p _ hp hk q hq => ?_) fun k c f hk' hfree hA hk q hq => ?_
    · rw [box?_leave hp] at hq
      exact hk q hq
    · by_cases hn : n = f.name
      · subst hn
        rw [box?_of_get? (get?_enroll_self k c f.name _), Option.some.injEq] at hq
        rw [← hq, Participant.isObserver, admitted_kind]
        exact decide_eq_false (hA f rfl rfl)
      · refine hk q ?_
        rwa [box?, get?_enroll_of_ne k c hn, enroll_dead, Dict.get?_erase_of_ne _ hn] at hq
  have hroom : ∀ (k : Hub) (f : Hello), k.Roster (k.declareRoom f) := fun k f =>
    (keeps_declareRoom (S := ∅) (T := ∅) (E := True) k f).toRoster
  refine hI.admitted (fun k f hk => hroster _ _ (hroom k f) hk) hw hh hop (fun _ q hq => ?_)
    fun now wall _ q hq => hh q hq
  rcases box?_pruneDead env h n with hsame | ⟨hnone, -⟩
  · exact hh q (hsame.symm.trans hq)
  · rw [hnone] at hq
    cases hq

/-! ## Says -/

/-- The operation is a say of `n` that passes the rate check: it is accepted, or refused as a
duplicate. -/
def passes (n : Str) (h : Hub) (op : Op F) : Nat :=
  match op with
  | .handle c frame =>
    match validate env.isPrintable frame, h.get? n with
    | .ok (.say f), some p =>
      if (h.wire.clients c).name = n ∧
          ((refusal env h p f).map Prod.fst = none ∨
            (refusal env h p f).map Prod.fst = some errDuplicate) then 1
      else 0
    | _, _ => 0
  | _ => 0

theorem funded_settle (h : Hub) (m : Str) (f : Say) (accepted : Bool) :
    h.Funded (h.settle env m f accepted) := by
  have hinfer := funded_inferIdle env h m
  unfold settle
  simp only
  split
  · exact hinfer
  · split
    · split
      · exact hinfer.trans (funded_markDone env _ m)
      · exact hinfer.trans (funded_setFinished _ m false)
    · exact hinfer

/-- **What a say costs**: a token if it passes the rate check, nothing otherwise. -/
theorem say_costs (hw : h.Wf) (hs : Stocked env n h) {c : ClientId} {frame : Obj F} {f : Say}
    (hv : validate env.isPrintable frame = .ok (.say f)) (hname : (h.wire.clients c).name = n)
    {p : Participant} (hp : h.get? n = some p) :
    ∃ q, (h.step env (.handle c frame)).box? n = some q ∧ Stock env q h.now ∧
      (passes env n h (.handle c frame) : Rat) + q.bucket.level h.now = p.bucket.level h.now := by
  have hstock := hs p (box?_of_get? hp)
  have hsound := hstock.now
  have hlife : Keeps ∅ ∅ True h (h.lifeSign n) := keeps_lifeSign h n
  have hp₁ : (h.lifeSign n).get? n = some { p with lastRx := h.now, awaitingPong := false } := by
    rw [lifeSign, get?_modify_self, hp]
    rfl
  have hpasses : passes env n h (.handle c frame) =
      if (refusal env h p f).map Prod.fst = none ∨
        (refusal env h p f).map Prod.fst = some errDuplicate then 1 else 0 := by
    simp only [passes, hv, hp, hname, true_and]
  have hstep : h.step env (.handle c frame) = h.dispatch env c (.say f) := by
    show h.handle env c frame = _
    rw [handle, hv]
    rfl
  obtain ⟨q, hq, hsame⟩ := (roster_dispatch env hw.named c
    (f := .say f) (by simp)).same n p hp
  rw [hstep, hpasses]
  refine ⟨q, box?_of_get? hq, ?_⟩
  have hstock' : ∀ {b : TokenBucket} {d : DedupWindow}, q.purse = ⟨b, d, h.now⟩ →
      b.Sound h.now → b.capacity = p.bucket.capacity →
      b.refillPerSecond = p.bucket.refillPerSecond → Stock env q h.now := by
    intro b d hpurse hb hcap hrate
    have hbucket : q.bucket = b := congrArg Purse.bucket hpurse
    have hrx : q.lastRx = h.now := congrArg Purse.lastRx hpurse
    exact ⟨by rw [hsame.isObserver]; exact hstock.agent,
      by rw [hbucket, hcap]; exact hstock.capacity, by rw [hbucket, hrate]; exact hstock.rate,
      by rw [hbucket, hrx]; exact hb, hrx.le⟩
  cases hr : refusal env h p f with
  | none =>
    obtain ⟨htake, d, hroute⟩ := routeSay_accepts env hp₁ hstock.agent
      ((refusal_lifeSign env h n p f).trans hr)
    have hsay : (h.dispatch env c (.say f)) = ((((h.lifeSign n).encodeText
        (dedupText f.addressee f.text f.priv)).modify n fun q =>
          { q with bucket := (p.bucket.take h.now).2, dedup := d }).accept env
            { p with lastRx := h.now, awaitingPong := false } f).settle env n f true := by
      unfold dispatch
      rw [hname]
      simp only [hp, handleSay, hroute]
      rfl
    have hpurse : (q.purse : Purse) = ⟨(p.bucket.take h.now).2, d, h.now⟩ := by
      have hend := ((funded_accept env (((h.lifeSign n).encodeText
        (dedupText f.addressee f.text f.priv)).modify n fun q =>
          { q with bucket := (p.bucket.take h.now).2, dedup := d })
            { p with lastRx := h.now, awaitingPong := false } f).trans
              (funded_settle env _ n f true)).purse n
      rw [← hsay, hq, get?_modify_self] at hend
      rw [show ((h.lifeSign n).encodeText (dedupText f.addressee f.text f.priv)).get? n =
        some { p with lastRx := h.now, awaitingPong := false } from hp₁] at hend
      exact Option.some.inj hend
    obtain ⟨hlevel, hsound'⟩ := TokenBucket.level_take hsound htake
    refine ⟨hstock' hpurse hsound' (TokenBucket.take_capacity _ _) (TokenBucket.take_rate _ _), ?_⟩
    rw [show q.bucket = (p.bucket.take h.now).2 from congrArg Purse.bucket hpurse]
    simpa using hlevel
  | some refused =>
    obtain ⟨code, detail, r⟩ := refused
    obtain ⟨k, -, halone, hinfer⟩ := refused_dispatch env hw hname hp hr
    have hpurse : q.purse =
        (h.charged code { p with lastRx := h.now, awaitingPong := false }).purse := by
      have hend := (funded_inferIdle env k n).purse n
      rw [← hinfer, hq, halone.sender p hp] at hend
      exact Option.some.inj hend
    unfold charged at hpurse
    by_cases hrate : code = errRateLimited
    · rw [if_pos hrate] at hpurse
      refine ⟨hstock' hpurse (TokenBucket.sound_refill hsound) (TokenBucket.refill_capacity _ _)
        (TokenBucket.refill_rate _ _), ?_⟩
      rw [show q.bucket = p.bucket.refill h.now from congrArg Purse.bucket hpurse,
        TokenBucket.level_refill]
      subst hrate
      simp [show errRateLimited ≠ errDuplicate by decide]
    · rw [if_neg hrate] at hpurse
      by_cases hdup : code = errDuplicate
      · rw [if_pos hdup] at hpurse
        subst hdup
        obtain ⟨hlevel, hsound'⟩ := TokenBucket.level_take hsound (take_of_duplicate env hr)
        refine ⟨hstock' hpurse hsound' (TokenBucket.take_capacity _ _)
          (TokenBucket.take_rate _ _), ?_⟩
        rw [show q.bucket = (p.bucket.take h.now).2 from congrArg Purse.bucket hpurse]
        simpa using hlevel
      · rw [if_neg hdup] at hpurse
        refine ⟨hstock' hpurse hsound rfl rfl, ?_⟩
        rw [show q.bucket = p.bucket from congrArg Purse.bucket hpurse]
        simp [hdup]

theorem say_or_not (n : Str) (h : Hub) (op : Op F) :
    Allowed env (notSayOf n) h op ∨ ∃ c frame f p, op = .handle c frame ∧
      validate env.isPrintable frame = .ok (.say f) ∧ (h.wire.clients c).name = n ∧
      h.get? n = some p := by
  by_cases hsay : Allowed env (notSayOf n) h op
  · exact Or.inl hsay
  · refine Or.inr ?_
    unfold Allowed at hsay
    push Not at hsay
    obtain ⟨c, frame, f, rfl, hv, hmeets⟩ := hsay
    cases f with
    | say f =>
      simp only [Meets, notSayOf, not_forall, not_not] at hmeets
      obtain ⟨p, hp, g, -, hname⟩ := hmeets
      exact ⟨c, frame, f, p, rfl, hv, hname, by rw [← hname]; exact hp⟩
    | _ => exact absurd (by simp [Meets, notSayOf]) hmeets

theorem passes_of_silence {op : Op F} (hop : Allowed env (notSayOf n) h op) :
    passes env n h op = 0 := by
  cases op with
  | handle c frame =>
    cases hv : validate env.isPrintable frame with
    | error e => simp only [passes, hv]
    | ok f =>
      cases f with
      | say f =>
        cases hp : h.get? n with
        | none => simp only [passes, hv, hp]
        | some p =>
          have hne : (h.wire.clients c).name ≠ n := fun hname =>
            hop c frame _ rfl hv p (by rw [hname]; exact hp) f rfl hname
          simp only [passes, hv, hp, hne, false_and, if_false]
      | _ => simp only [passes, hv]
  | _ => rfl

theorem levelOf_some {q : Participant} (hq : h.box? n = some q) :
    levelOf env n h = q.bucket.level h.now := by rw [levelOf, hq]

theorem levelOf_none (hq : h.box? n = none) : levelOf env n h = env.config.rateBurst := by
  rw [levelOf, hq]

theorem Stocked.bounds (hs : Stocked env n h) :
    0 ≤ levelOf env n h ∧ levelOf env n h ≤ env.config.rateBurst := by
  cases hq : h.box? n with
  | none =>
    rw [levelOf_none env hq]
    exact ⟨Nat.cast_nonneg _, le_rfl⟩
  | some q =>
    have hstock := hs q hq
    rw [levelOf_some env hq, ← hstock.capacity]
    exact ⟨TokenBucket.level_nonneg hstock.now, TokenBucket.level_le hstock.now⟩

/-- A registration that expires has the level of a fresh one. -/
theorem level_expired (httl : (env.config.rateBurst : Rat) * env.config.rateWindow /
      env.config.rateMessages ≤ env.config.deadTtl) {q : Participant} (hs : Stock env q h.now)
    (hold : env.config.deadTtl < h.now - q.lastRx) :
    q.bucket.level h.now = env.config.rateBurst := by
  rw [← hs.capacity]
  refine TokenBucket.level_full hs.now ?_
  have hmessages : (0 : Rat) < env.config.rateMessages := Nat.cast_pos.mpr env.config.rateMessages_pos
  have hlong : (env.config.rateBurst : Rat) * env.config.rateWindow / env.config.rateMessages ≤
      h.now - q.bucket.last := by linarith [hs.sound.past]
  rw [hs.capacity, hs.rate, refillRate, ← mul_div_assoc, le_div_iff₀ env.config.rateWindow_pos]
  rwa [div_le_iff₀ hmessages] at hlong

/-- The clock does not go back, and `n` is registered as an agent only. -/
def Steady (n : Str) (h : Hub) (op : Op F) : Prop :=
  (∀ now wall, op = .clock now wall → h.now ≤ now) ∧ Admitted env (agentHello n) h op

theorem forward_step (hw : h.Wf) {op : Op F} (hop : Steady env n h op) :
    h.now ≤ (h.step env op).now := by
  by_cases hclock : ∃ now wall, op = .clock now wall
  · obtain ⟨now, wall, rfl⟩ := hclock
    exact hop.1 now wall rfl
  · rw [now_step hw fun now wall heq => hclock ⟨now, wall, heq⟩]

/-- **The accounts of an operation.** -/
theorem pays_step (httl : (env.config.rateBurst : Rat) * env.config.rateWindow /
      env.config.rateMessages ≤ env.config.deadTtl) (hw : h.Wf) (hs : Stocked env n h) {op : Op F}
    (hop : Steady env n h op) :
    Run.Pays (Hub.step env) Hub.now (levelOf env n) (fun h op => (passes env n h op : Rat))
      (refillRate env) env.config.rateBurst h op ∧ Stocked env n (h.step env op) := by
  have hforward := forward_step env hw hop
  have hagent := agent_step env hw (fun q hq => (hs q hq).agent) hop.2
  obtain ⟨hnonneg, hcapped⟩ := hs.bounds env
  have hrefill : 0 ≤ refillRate env * ((h.step env op).now - h.now) :=
    mul_nonneg (refillRate_nonneg env) (sub_nonneg.mpr hforward)
  have hpays : Stocked env n (h.step env op) → (passes env n h op : Rat) ≤ levelOf env n h →
      (passes env n h op : Rat) + levelOf env n (h.step env op) ≤
        levelOf env n h + refillRate env * ((h.step env op).now - h.now) →
      Run.Pays (Hub.step env) Hub.now (levelOf env n) (fun h op => (passes env n h op : Rat))
        (refillRate env) env.config.rateBurst h op ∧ Stocked env n (h.step env op) :=
    fun hs' hcovered hpaid =>
      ⟨⟨hforward, hcovered, hpaid, (hs'.bounds env).1, (hs'.bounds env).2⟩, hs'⟩
  rcases say_or_not env n h op with hsilent | ⟨c, frame, f, p, rfl, hv, hname, hp⟩
  · have hzero : (passes env n h op : Rat) = 0 := by
      rw [passes_of_silence env hsilent, Nat.cast_zero]
    rw [hzero] at hpays
    rcases saved_step hw hsilent with hsaved | ⟨-, hgone, d, hd, hold⟩
    · cases hsaved with
      | kept q q' found found' unspent =>
        have hstock := hs q found
        have hsound : q'.bucket.Sound q'.lastRx := by
          rw [unspent.bucket]
          rcases unspent.lastRx with hrx | hrx
          · rw [hrx]
            exact hstock.sound
          · rw [hrx]
            exact hstock.now
        have hheard : q'.lastRx ≤ (h.step env op).now := by
          rcases unspent.lastRx with hrx | hrx
          · rw [hrx]
            exact hstock.heard.trans hforward
          · rw [hrx]
            exact hforward
        refine hpays (fun r hr => ?_) hnonneg ?_
        · rw [found', Option.some.injEq] at hr
          subst hr
          exact ⟨hagent q' found', by rw [unspent.bucket]; exact hstock.capacity,
            by rw [unspent.bucket]; exact hstock.rate, hsound, hheard⟩
        · rw [levelOf_some env found, levelOf_some env found', unspent.bucket, zero_add,
            ← hstock.rate]
          exact TokenBucket.level_later hstock.now hforward
      | absent away away' =>
        refine hpays (fun r hr => ?_) hnonneg ?_
        · rw [away'] at hr
          cases hr
        · rw [levelOf_none env away, levelOf_none env away']
          linarith
      | fresh q' away found fresh =>
        have hbucket : q'.bucket = TokenBucket.new env.config.rateBurst (refillRate env) h.now :=
          fresh.bucket
        have hs' : Stocked env n (h.step env op) := by
          intro r hr
          rw [found, Option.some.injEq] at hr
          subst hr
          refine ⟨hagent q' found, by rw [hbucket]; rfl, by rw [hbucket]; rfl, ?_, ?_⟩
          · rw [hbucket, fresh.lastRx]
            exact sound_new env h.now
          · rw [fresh.lastRx]
            exact hforward
        refine hpays hs' hnonneg ?_
        have hfull := (hs'.bounds env).2
        rw [levelOf_none env away]
        linarith
    · refine hpays (fun r hr => ?_) hnonneg ?_
      · rw [hgone] at hr
        cases hr
      · rw [levelOf_some env hd, levelOf_none env hgone, level_expired env httl (hs d hd) hold]
        linarith
  · obtain ⟨q, hq, hstock, hcost⟩ := say_costs env hw hs hv hname hp
    have hnow : (h.step env (.handle c frame)).now = h.now := now_step hw (by simp)
    have hlevel := levelOf_some env (box?_of_get? hp)
    have hlevel' := levelOf_some env hq
    rw [hnow] at hlevel'
    have hpositive := TokenBucket.level_nonneg hstock.now
    refine hpays (fun r hr => ?_) ?_ ?_
    · rw [hq, Option.some.injEq] at hr
      subst hr
      rw [hnow]
      exact hstock
    · rw [hlevel]
      linarith
    · rw [hlevel, hlevel']
      linarith

/-- The says of `n` that pass the rate check between `s` and `t`. -/
def passed (n : Str) (s t : Rat) (h : Hub) (ops : List (Op F)) : Rat :=
  Run.spentIn (Hub.step env) Hub.now (fun h op => (passes env n h op : Rat)) s t h ops

/-- **The rate limit is not reset by reconnecting.**  If the monotonic clock does not go back, `n`
is registered as an agent only and the dead outlive a refill, then between `s` and `t` no more says of `n`
pass the rate check than a full bucket and the refill of that time allow. -/
theorem rate_is_kept (n : Str) (records : List MsgRec) (now wall : Rat) (ops : List (Op F))
    (hops : Run.Always (Hub.step env) (Steady env n) (init env records now wall) ops)
    (httl : (env.config.rateBurst : Rat) * env.config.rateWindow / env.config.rateMessages ≤
      env.config.deadTtl) {s t : Rat} (hst : s ≤ t) :
    passed env n s t (init env records now wall) ops ≤
      env.config.rateBurst + (t - s) * env.config.rateMessages / env.config.rateWindow := by
  have hpays : ∀ (h : Hub) (ops : List (Op F)), h.Wf → Stocked env n h →
      Run.Always (Hub.step env) (Steady env n) h ops →
      Run.Always (Hub.step env) (Run.Pays (Hub.step env) Hub.now (levelOf env n)
        (fun h op => (passes env n h op : Rat)) (refillRate env) env.config.rateBurst) h ops := by
    intro h ops
    induction ops generalizing h with
    | nil => exact fun _ _ _ => trivial
    | cons op ops ih =>
      intro hw hs hsteady
      obtain ⟨hpay, hs'⟩ := pays_step env httl hw hs hsteady.1
      exact ⟨hpay, ih _ (hw.step env op) hs' hsteady.2⟩
  have hstart : Stocked env n (init env records now wall) := by rintro q ⟨⟩
  have hbound := Run.spentIn_le
    (hpays _ ops (wf_init env records now wall) hstart hops) (refillRate_nonneg env)
    (hstart.bounds env).1 (hstart.bounds env).2 hst
  have hrate : refillRate env * (t - s) =
      (t - s) * env.config.rateMessages / env.config.rateWindow := by
    rw [refillRate]
    ring
  rw [← hrate]
  exact hbound

theorem steady_hello {c : ClientId} {frame : Obj F} {g : Hello}
    (hv : validate env.isPrintable frame = .ok (.hello g)) (hkind : g.kind ≠ observerKind) :
    Steady env n h (.handle c frame) := by
  refine ⟨by simp, ?_⟩
  rintro c frame f ⟨⟩ hf
  rw [hv] at hf
  cases hf
  intro _ g' heq _
  cases heq
  exact hkind

theorem steady_say {c : ClientId} {frame : Obj F} {f : Say}
    (hv : validate env.isPrintable frame = .ok (.say f)) : Steady env n h (.handle c frame) := by
  refine ⟨by simp, ?_⟩
  rintro c frame f ⟨⟩ hf
  rw [hv] at hf
  cases hf
  rintro p - g ⟨⟩

theorem steady_disconnect (c : ClientId) : Steady env n h (.disconnect c : Op F) :=
  ⟨by simp, by rintro _ _ _ ⟨⟩⟩

end

/-- Alice says four things at once, reconnects, and says a fifth. -/
def reconnect : List (Op PyJson.Token) :=
  [.handle 0 (helloFrame "alice" "agent" []), .handle 0 (sayFrame "*" "claim" "a" false),
    .handle 0 (sayFrame "*" "claim" "b" false), .handle 0 (sayFrame "*" "claim" "c" false),
    .handle 0 (sayFrame "*" "claim" "d" false), .disconnect 0,
    .handle 1 (helloFrame "alice" "agent" []), .handle 1 (sayFrame "*" "claim" "e" false)]

theorem rate_is_kept_reconnect :
    passed .still (str "alice") 0 0 (init .still [] 0 0) reconnect = 3 ∧
      passed .still (str "alice") 0 0 (init .still [] 0 0) reconnect ≤
        (3 : Nat) + (0 - 0) * (6 : Nat) / 60 := by
  refine ⟨by decide +kernel, ?_⟩
  have hello : ∃ g, validate Env.still.isPrintable (helloFrame "alice" "agent" []) =
      .ok (.hello g) ∧ g.kind = str "agent" := ⟨_, rfl, rfl⟩
  obtain ⟨g, hg, hkind⟩ := hello
  have hagent : g.kind ≠ observerKind := by
    rw [hkind]
    decide
  have hsay : ∀ text ∈ ["a", "b", "c", "d", "e"], ∃ f,
      validate Env.still.isPrintable (sayFrame "*" "claim" text false) = .ok (.say f) := by
    simp only [List.forall_mem_cons, List.not_mem_nil, false_imp_iff, implies_true, and_true]
    exact ⟨⟨_, rfl⟩, ⟨_, rfl⟩, ⟨_, rfl⟩, ⟨_, rfl⟩, ⟨_, rfl⟩⟩
  obtain ⟨a, ha⟩ := hsay "a" (by simp)
  obtain ⟨b, hb⟩ := hsay "b" (by simp)
  obtain ⟨c, hc⟩ := hsay "c" (by simp)
  obtain ⟨d, hd⟩ := hsay "d" (by simp)
  obtain ⟨e, he⟩ := hsay "e" (by simp)
  exact rate_is_kept .still (str "alice") [] 0 0 reconnect
    ⟨steady_hello .still hg hagent, steady_say .still ha, steady_say .still hb,
      steady_say .still hc, steady_say .still hd, steady_disconnect .still 0,
      steady_hello .still hg hagent, steady_say .still he, trivial⟩
    (by decide +kernel) le_rfl

end Hub

end Moot
