import Moot.Hub.Spend
import Moot.Hub.Settings

/-!
# The advertised wait

A say over the rate limit is refused with the seconds until the bucket holds a
token.  The level of the bucket only rises until a say takes one, so that wait is
exact; the frame carries it rounded to the nearest millisecond.

Proved here: `waiting_is_enough`, the rounded wait is enough exactly where rounding
has not shortened it, and `wait_falls_short`, a say refused after the wait.
-/

namespace Moot
open Py Proto PyJson

/-! ## One bucket -/

namespace TokenBucket

/-- The seconds until the bucket holds a token. -/
def wait (b : TokenBucket) (now : Rat) : Rat := (1 - b.level now) / b.refillPerSecond

variable {b : TokenBucket} {now now' : Rat}

theorem take_iff : (b.take now).1 = true ↔ 1 ≤ b.level now := by
  unfold take level
  simp only
  split
  · next htok => simpa using htok
  · next htok => simpa using htok

theorem retryAfter_eq (htake : (b.take now).1 = false) :
    ((b.take now).2.retryAfter now).1 = b.wait now := by
  have hlow : ¬ 1 ≤ b.level now := by
    rw [← take_iff, htake]
    exact Bool.false_ne_true
  have hlow' : ¬ (b.refill now).tokens ≥ 1 := hlow
  have hfailed : (b.take now).2 = b.refill now := by
    unfold take
    simp only [hlow', if_false]
  have hmissing : ¬ 1 - (b.refill now).tokens ≤ 0 := by linarith [not_le.mp hlow']
  rw [hfailed, retryAfter, Hub.refill_refill]
  simp only [hmissing, if_false, refill_rate]
  rfl

theorem sound_take (hb : b.Sound now) : (b.take now).2.Sound now := by
  cases htake : (b.take now).1 with
  | true => exact (level_take hb htake).2
  | false =>
    have hlow : ¬ (b.refill now).tokens ≥ 1 := by
      have hiff : (b.take now).1 = true ↔ 1 ≤ b.level now := take_iff
      rw [htake] at hiff
      exact fun hle => Bool.false_ne_true (hiff.mpr hle)
    unfold take
    simp only [hlow, if_false]
    exact sound_refill hb

/-- The clock goes on: the bucket refills at its rate, up to its capacity. -/
theorem level_refills (hb : b.Sound now) (h : now ≤ now') :
    min b.capacity (b.level now + b.refillPerSecond * (now' - now)) ≤ b.level now' := by
  rw [level_eq hb, level_eq (hb.later h)]
  refine min_le_min le_rfl ?_
  have hle := min_le_right b.capacity (b.tokens + (now - b.last) * b.refillPerSecond)
  have hsplit : (now' - b.last) * b.refillPerSecond =
      (now - b.last) * b.refillPerSecond + b.refillPerSecond * (now' - now) := by ring
  linarith

theorem level_new {capacity : Nat} {rate : Rat} (hrate : 0 ≤ rate) (h : now ≤ now') :
    (new capacity rate now).level now' = capacity := by
  have hs : (new capacity rate now).Sound now' := ⟨Nat.cast_nonneg _, le_rfl, h, hrate⟩
  rw [level_eq hs]
  exact min_eq_left (le_add_of_nonneg_right (mul_nonneg (sub_nonneg.mpr h) hrate))

end TokenBucket

namespace Hub

/-- The bucket of the registration is in order. -/
structure Filled (env : Env) (q : Participant) (now : Rat) : Prop where
  capacity : q.bucket.capacity = env.config.rateBurst
  rate : q.bucket.refillPerSecond = refillRate env
  sound : q.bucket.Sound now

/-- The clock does not go back, and no say of the agent `n` passes the rate check. -/
def Waits {F : Type} [PyFloat F] (env : Env) (n : Str) (h : Hub) (op : Op F) : Prop :=
  Forward h op ∧ ∀ p, h.get? n = some p → p.isObserver = false → passes env n h op = 0

section
variable (env : Env) {n : Str} {h : Hub}

theorem refillRate_pos : 0 < refillRate env :=
  div_pos (Nat.cast_pos.mpr env.config.rateMessages_pos) env.config.rateWindow_pos

/-- What a say does to the bucket of its sender. -/
theorem spent_bucket (p : Participant) (f : Say) :
    (spent env h p f).bucket = p.bucket ∨ (spent env h p f).bucket = p.bucket.refill h.now ∨
      (spent env h p f).bucket = (p.bucket.take h.now).2 ∧ p.isObserver = false ∧
        ((refusal env h p f).map Prod.fst = none ∨
          (refusal env h p f).map Prod.fst = some errDuplicate) := by
  unfold spent
  cases hr : refusal env h p f with
  | none =>
    simp only
    split
    · exact Or.inl rfl
    · next hobs => exact Or.inr (Or.inr ⟨rfl, by simpa using hobs, Or.inl rfl⟩)
  | some refused =>
    obtain ⟨code, detail, r⟩ := refused
    simp only [charged]
    split
    · exact Or.inr (Or.inl rfl)
    · split
      · next hdup =>
        refine Or.inr (Or.inr ⟨rfl, ?_, Or.inr (congrArg some hdup)⟩)
        cases hobs : p.isObserver with
        | false => rfl
        | true =>
          have hunknown := refusal_observer env hobs hr
          rw [hdup] at hunknown
          revert hunknown
          decide
      · exact Or.inl rfl

/-- Every registration of `n` has its bucket in order. -/
def AllFilled (n : Str) (h : Hub) : Prop := ∀ q, h.box? n = some q → Filled env q h.now

theorem filled_spent {p : Participant} (hp : Filled env p h.now) {f : Say} {q : Participant}
    (hq : q.purse = spent env h p f) : Filled env q h.now := by
  have hbucket : q.bucket = (spent env h p f).bucket := congrArg Purse.bucket hq
  rcases spent_bucket env (h := h) p f with hsame | hfilled | ⟨htaken, -⟩
  · rw [hsame] at hbucket
    exact ⟨hbucket ▸ hp.capacity, hbucket ▸ hp.rate, hbucket ▸ hp.sound⟩
  · rw [hfilled] at hbucket
    exact ⟨by rw [hbucket, TokenBucket.refill_capacity, hp.capacity],
      by rw [hbucket, TokenBucket.refill_rate, hp.rate],
      by rw [hbucket]; exact TokenBucket.sound_refill hp.sound⟩
  · rw [htaken] at hbucket
    exact ⟨by rw [hbucket, TokenBucket.take_capacity, hp.capacity],
      by rw [hbucket, TokenBucket.take_rate, hp.rate],
      by rw [hbucket]; exact TokenBucket.sound_take hp.sound⟩

variable {F : Type} [PyFloat F]

theorem filled_step (hw : h.Wf) (hh : AllFilled env n h) {op : Op F} (hop : Forward h op) :
    AllFilled env n (h.step env op) := by
  have hforward := hop.now_le env hw
  intro q hq
  cases paid_step env hw n op with
  | saved _ hsaved =>
    cases hsaved with
    | kept p q' found found' unspent =>
      rw [found', Option.some.injEq] at hq
      subst hq
      have hp := hh p found
      exact ⟨by rw [unspent.bucket, hp.capacity], by rw [unspent.bucket, hp.rate],
        by rw [unspent.bucket]; exact hp.sound.later hforward⟩
    | absent _ away' =>
      rw [away'] at hq
      cases hq
    | fresh q' _ found fresh =>
      rw [found, Option.some.injEq] at hq
      subst hq
      exact ⟨by rw [fresh.bucket]; rfl, by rw [fresh.bucket]; rfl,
        by rw [fresh.bucket]; exact (sound_new env h.now).later hforward⟩
  | expired gone =>
    rw [gone] at hq
    cases hq
  | said c frame f p q' handled _ _ sender found _ purse =>
    rw [box?_of_get? found, Option.some.injEq] at hq
    subst hq
    have hnow : (h.step env op).now = h.now := now_step hw (by simp [handled])
    rw [hnow]
    exact filled_spent env (hh p (box?_of_get? sender)) purse

/-- **While `n` waits its level rises** at the rate of the bucket, up to its capacity. -/
theorem level_step (hw : h.Wf) (hh : AllFilled env n h) {op : Op F} (hop : Waits env n h op) :
    min (env.config.rateBurst : Rat)
      (levelOf env n h + refillRate env * ((h.step env op).now - h.now)) ≤
        levelOf env n (h.step env op) := by
  have hforward := hop.1.now_le env hw
  cases paid_step env hw n op with
  | saved _ hsaved =>
    cases hsaved with
    | kept p q' found found' unspent =>
      have hp := hh p found
      rw [levelOf_some env found, levelOf_some env found', unspent.bucket, ← hp.capacity, ← hp.rate]
      exact TokenBucket.level_refills hp.sound hforward
    | absent _ away' =>
      rw [levelOf_none env away']
      exact min_le_left _ _
    | fresh q' _ found fresh =>
      have hbucket : q'.bucket = TokenBucket.new env.config.rateBurst (refillRate env) h.now :=
        fresh.bucket
      rw [levelOf_some env found, hbucket, TokenBucket.level_new (refillRate_nonneg env) hforward]
      exact min_le_left _ _
  | expired gone =>
    rw [levelOf_none env gone]
    exact min_le_left _ _
  | said c frame f p q' handled valid name sender found _ purse =>
    have hnow : (h.step env op).now = h.now := now_step hw (by simp [handled])
    have hbucket : q'.bucket = (spent env h p f).bucket := congrArg Purse.bucket purse
    rw [levelOf_some env (box?_of_get? sender), levelOf_some env (box?_of_get? found), hnow,
      sub_self, mul_zero, add_zero, hbucket]
    refine (min_le_right _ _).trans ?_
    rcases spent_bucket env (h := h) p f with hsame | hfilled | ⟨-, hagent, hcode⟩
    · rw [hsame]
    · rw [hfilled, TokenBucket.level_refill]
    · have hzero := hop.2 p sender hagent
      have hone : passes env n h op = 1 := by
        rw [handled]
        simp only [passes, valid, sender, name, true_and]
        exact if_pos hcode
      rw [hone] at hzero
      cases hzero

theorem level_run (hw : h.Wf) (hh : AllFilled env n h) {ops : List (Op F)}
    (hops : Run.Always (Hub.step env) (Waits env n) h ops) :
    AllFilled env n (Run.after (Hub.step env) h ops) ∧
      h.now ≤ (Run.after (Hub.step env) h ops).now ∧
      min (env.config.rateBurst : Rat)
        (levelOf env n h + refillRate env * ((Run.after (Hub.step env) h ops).now - h.now)) ≤
          levelOf env n (Run.after (Hub.step env) h ops) := by
  have hstart : min (env.config.rateBurst : Rat)
      (levelOf env n h + refillRate env * (h.now - h.now)) ≤ levelOf env n h := by
    rw [sub_self, mul_zero, add_zero]
    exact min_le_right _ _
  refine (Run.invariant (I := fun k => k.Wf ∧ AllFilled env n k ∧ h.now ≤ k.now ∧
    min (env.config.rateBurst : Rat) (levelOf env n h + refillRate env * (k.now - h.now)) ≤
      levelOf env n k) ?_ ⟨hw, hh, le_rfl, hstart⟩ hops).2
  rintro k op ⟨hk, hfilled, hle, hlevel⟩ hop
  have hforward := hop.1.now_le env hk
  have hnext := level_step env hk hfilled hop
  refine ⟨hk.step env op, filled_step env hk hfilled hop.1, hle.trans hforward, ?_⟩
  have hrefill : 0 ≤ refillRate env * ((k.step env op).now - k.now) :=
    mul_nonneg (refillRate_nonneg env) (sub_nonneg.mpr hforward)
  have hsplit : refillRate env * ((k.step env op).now - h.now) =
      refillRate env * (k.now - h.now) + refillRate env * ((k.step env op).now - k.now) := by ring
  refine le_trans (le_min (min_le_left _ _) ?_) hnext
  rcases min_le_iff.mp hlevel with hfull | hrises
  · have := min_le_left (env.config.rateBurst : Rat)
      (levelOf env n h + refillRate env * ((k.step env op).now - h.now))
    linarith
  · have := min_le_right (env.config.rateBurst : Rat)
      (levelOf env n h + refillRate env * ((k.step env op).now - h.now))
    linarith

/-! ## The rate check -/

theorem refusal_rated {p : Participant} {f : Say} {detail : Str} {r : Option Rat}
    (hr : refusal env h p f = some (errRateLimited, detail, r)) :
    p.isObserver = false ∧ (p.bucket.take h.now).1 = false ∧ r = some (p.bucket.wait h.now) := by
  have hother : ∀ {code detail' : Str} {r' : Option Rat}, code ≠ errRateLimited →
      some (code, detail', r') ≠ some (errRateLimited, detail, r) := fun hne heq =>
    hne (congrArg Prod.fst (Option.some.inj heq))
  unfold refusal at hr
  split_ifs at hr with hfrozen hmuted hunknown hobs hrate hdup
  · exact absurd hr (hother (by decide))
  · exact absurd hr (hother (by decide))
  · exact absurd hr (hother (by decide))
  · refine ⟨by simpa using hobs, hrate, ?_⟩
    rw [← TokenBucket.retryAfter_eq hrate]
    exact (congrArg (·.2.2) (Option.some.inj hr)).symm
  · exact absurd hr (hother (by decide))

/-- A say that finds a token is not refused as rate limited. -/
theorem not_rated {q : Participant} (htake : (q.bucket.take h.now).1 = true) (g : Say) :
    (refusal env h q g).map Prod.fst ≠ some errRateLimited := by
  intro hcode
  obtain ⟨⟨code, detail, r⟩, hr, hcode⟩ := Option.map_eq_some_iff.mp hcode
  simp only at hcode
  subst hcode
  rw [(refusal_rated env hr).2.1] at htake
  cases htake

/-- A say that finds no token is refused as rate limited, unless it has been refused before. -/
theorem rated {q : Participant} (hagent : q.isObserver = false)
    (htake : (q.bucket.take h.now).1 = false) (g : Say) :
    (refusal env h q g).map Prod.fst ∈
      [some errFrozen, some errMuted, some errUnknownRecipient, some errRateLimited] := by
  unfold refusal
  split_ifs with hfrozen hmuted hunknown hobs
  · simp
  · simp
  · simp
  · rw [hagent] at hobs
    cases hobs
  · simp

/-- The observers and agents of a floor are the same after a step that keeps its roster. -/
theorem Roster.observers {h' : Hub} (hr : h.Roster h') (m : Str) :
    (h'.get? m).map (·.isObserver) = (h.get? m).map (·.isObserver) := by
  cases hm : h.get? m with
  | none =>
    cases hm' : h'.get? m with
    | none => rfl
    | some q' =>
      obtain ⟨q, hq, -⟩ := hr.back hm'
      rw [hm] at hq
      cases hq
  | some q =>
    obtain ⟨q', hq', hsame⟩ := hr.same m q hm
    rw [hq', Option.map_some, Option.map_some, hsame.isObserver]

theorem LeftAlone.named {k : Hub} {code : Str} (halone : LeftAlone n code h k) (hn : h.Named)
    {p : Participant} (hp : h.get? n = some p) : k.Named := by
  intro m q hq
  by_cases hm : m = n
  · subst hm
    rw [halone.sender p hp, Option.some.injEq] at hq
    subst hq
    unfold charged
    split_ifs <;> exact hn m p hp
  · rw [halone.others m hm] at hq
    exact hn m q hq

/-- After a refused say the checks meet the mute flag and the roster that they met before it. -/
theorem floor_refused {k : Hub} {code : Str} (halone : LeftAlone n code h k) (hn : h.Named)
    {p : Participant} (hp : h.get? n = some p) :
    (k.inferIdle env n).muted = h.muted ∧
      ∀ m, ((k.inferIdle env n).get? m).map (·.isObserver) = (h.get? m).map (·.isObserver) := by
  refine ⟨?_, fun m => ?_⟩
  · have hmuted : (k.inferIdle env n).muted = k.muted :=
      congrArg Settings.muted (settings_inferIdle env k n)
    rw [hmuted, halone.flags.2.1]
  · rw [(keeps_inferIdle env (halone.named hn hp) n).toRoster.observers m]
    by_cases hm : m = n
    · subst hm
      rw [halone.sender p hp, hp, Option.map_some, Option.map_some]
      unfold charged
      split_ifs <;> rfl
    · rw [halone.others m hm]

/-- The say that was refused as rate limited is refused so again at a time `t` at which it finds no
token, unless the hub is frozen by then. -/
theorem rated_again {h' : Hub} (hmuted : h'.muted = h.muted)
    (hroster : ∀ m, (h'.get? m).map (·.isObserver) = (h.get? m).map (·.isObserver))
    {p q : Participant} {f : Say} {detail : Str} {r : Option Rat} {t wall : Rat}
    (hr : refusal env h p f = some (errRateLimited, detail, r)) (hagent : q.isObserver = false)
    (htake : (q.bucket.take t).1 = false) :
    (refusal env (h'.step env (.clock t wall : Op F)) q f).map Prod.fst =
      some (if (h'.step env (.clock t wall : Op F)).frozen then errFrozen else errRateLimited) := by
  have hpagent := (refusal_rated env hr).1
  have hother : ∀ {code detail' : Str} {r' : Option Rat}, code ≠ errRateLimited →
      some (code, detail', r') ≠ some (errRateLimited, detail, r) := fun hne heq =>
    hne (congrArg Prod.fst (Option.some.inj heq))
  have hstep : h'.step env (.clock t wall : Op F) = { h' with now := t, wall := wall } := rfl
  have hroster' : ∀ m, (({ h' with now := t, wall := wall } : Hub).get? m).map (·.isObserver) =
    (h.get? m).map (·.isObserver) := hroster
  rw [hstep]
  unfold refusal at hr ⊢
  rw [contains_congr hroster', targetsAgent_congr hroster']
  simp only [hmuted, hpagent, hagent, htake, true_and, Bool.false_eq_true, if_false, if_true] at hr ⊢
  split_ifs at hr with hfrozen hmute hunknown
  · exact absurd hr (hother (by decide))
  · exact absurd hr (hother (by decide))
  · exact absurd hr (hother (by decide))
  all_goals
    rw [if_neg hmute, if_neg hunknown]
    cases h'.frozen <;> rfl

theorem roundTo_nonneg (k : Nat) {x : Rat} (hx : 0 ≤ x) : 0 ≤ roundTo k x := by
  have hpow : (0 : Rat) < 10 ^ k := by positivity
  have hfloor : 0 ≤ (x * 10 ^ k).floor := Rat.le_floor_iff.mpr (by
    rw [Int.cast_zero]
    exact mul_nonneg hx hpow.le)
  have hround : (0 : Int) ≤ roundHalfEven (x * 10 ^ k) := by
    unfold roundHalfEven
    simp only
    split_ifs <;> omega
  exact div_nonneg (Int.cast_nonneg hround) hpow.le

/-- What the refusal itself leaves of the level. -/
theorem level_rated (hw : h.Wf) {c : ClientId} {frame : Obj F} {f : Say}
    (hv : validate env.isPrintable frame = .ok (.say f)) (hname : (h.wire.clients c).name = n)
    {p : Participant} (hp : h.get? n = some p) {detail : Str} {r : Option Rat}
    (hr : refusal env h p f = some (errRateLimited, detail, r)) :
    ∃ q, (h.step env (.handle c frame)).get? n = some q ∧ q.isObserver = false ∧
      q.bucket = p.bucket.refill h.now := by
  obtain ⟨q, hq, hsame, hpurse⟩ := say_spends env hw hv hname hp
  refine ⟨q, hq, hsame.isObserver.trans (refusal_rated env hr).1, ?_⟩
  have hbucket : q.bucket = (spent env h p f).bucket := congrArg Purse.bucket hpurse
  rw [hbucket]
  unfold spent
  rw [hr]
  rfl

theorem filled_run (records : List MsgRec) (now wall : Rat) {ops : List (Op F)}
    (hops : Run.Always (Hub.step env) Forward (init env records now wall) ops) :
    AllFilled env n (Run.after (Hub.step env) (init env records now wall) ops) :=
  (Run.invariant (I := fun k => k.Wf ∧ AllFilled env n k)
    (fun _ op hk hop => ⟨hk.1.step env op, filled_step env hk.1 hk.2 hop⟩)
    ⟨wf_init env records now wall, by rintro q ⟨⟩⟩ hops).2

/-- The wait as the frame carries it. -/
def advertised (p : Participant) (now : Rat) : Rat := roundTo 3 (p.bucket.wait now)

/-- From `h` on, no say of `n` is refused as rate limited at `t` or later, until one has passed the
rate check. -/
def ServedFrom (n : Str) (h : Hub) (t : Rat) : Prop :=
  ∀ (later : List (Op F)) (q : Participant) (g : Say),
    Run.Always (Hub.step env) (Waits env n) h later →
    (Run.after (Hub.step env) h later).get? n = some q →
    t ≤ (Run.after (Hub.step env) h later).now →
    (refusal env (Run.after (Hub.step env) h later) q g).map Prod.fst ≠ some errRateLimited

/-- From `h` on there is a time from `t` on at which every say of `n` that reaches the rate check is
refused by it, though none has passed it; unless the hub is frozen by then, `f` does reach it. -/
def TurnedAwayAt (F : Type) [PyFloat F] (n : Str) (f : Say) (h : Hub) (t : Rat) : Prop :=
  ∃ (later : List (Op F)) (q : Participant),
    Run.Always (Hub.step env) (Waits env n) h later ∧
    (Run.after (Hub.step env) h later).get? n = some q ∧
    t ≤ (Run.after (Hub.step env) h later).now ∧
    (∀ g, (refusal env (Run.after (Hub.step env) h later) q g).map Prod.fst ∈
      [some errFrozen, some errMuted, some errUnknownRecipient, some errRateLimited]) ∧
    (refusal env (Run.after (Hub.step env) h later) q f).map Prod.fst =
      some (if (Run.after (Hub.step env) h later).frozen then errFrozen else errRateLimited)

/-- The step from `h` to `h'` tells `p` that `f` is refused as rate limited, with the advertised wait
as `retry_after`. -/
def ToldToWait (F : Type) (p : Participant) (f : Say) (h h' : Hub) : Prop :=
  ∃ frame, Effect.send p.name p.client (h.up p.client) frame ∈
      h'.wire.log.drop h.wire.log.length ∧
    ∀ num : Rat → Json F, ∃ fields, frame.toJson num = .obj fields ∧
      fields.lookup (str "code") = some (jstr errRateLimited) ∧
      fields.lookup (str "seq") = some (.int f.seq) ∧
      fields.lookup (str "retry_after") = some (num (advertised p h.now))

/-- A say over the rate limit is answered with the advertised wait, and leaves the floor that the
checks see as it was. -/
theorem rated_step (hw : h.Wf) {c : ClientId} {frame : Obj F} {f : Say}
    (hv : validate env.isPrintable frame = .ok (.say f)) (hname : (h.wire.clients c).name = n)
    {p : Participant} (hp : h.get? n = some p) {detail : Str} {r : Option Rat}
    (hr : refusal env h p f = some (errRateLimited, detail, r)) :
    ToldToWait F p f h (h.step env (.handle c frame)) ∧
      (h.step env (.handle c frame)).muted = h.muted ∧
      ∀ m, ((h.step env (.handle c frame)).get? m).map (·.isObserver) =
        (h.get? m).map (·.isObserver) := by
  obtain ⟨k, hk, halone, hdispatch⟩ := refused_dispatch env hw hname hp hr
  have hstep : h.step env (.handle c frame) = k.inferIdle env n := by
    rw [← hdispatch]
    show h.handle env c frame = _
    rw [handle, hv]
    rfl
  obtain ⟨told, hlog, -⟩ := hk.log
  obtain ⟨more, hmore⟩ := (keeps_inferIdle env (halone.named hw.named hp) n).wire.log
  have hstart : (h.lifeSign n).wire.log = h.wire.log := rfl
  have hretry : r = some (p.bucket.wait h.now) := (refusal_rated env hr).2.2
  subst hretry
  rw [hstep]
  refine ⟨⟨.err errRateLimited detail (some f.seq) (some (p.bucket.wait h.now)), ?_,
    fun num => ⟨_, rfl, rfl, rfl, rfl⟩⟩, floor_refused env halone hw.named hp⟩
  rw [← hmore, hlog, hstart, List.append_assoc, List.append_assoc, List.drop_left]
  exact List.mem_append_right _ List.mem_cons_self

/-- **The advertised wait is enough exactly where rounding has not shortened it.**  If the monotonic
clock does not go back, then a say that is refused as rate limited is told to wait until its bucket
holds a token, in milliseconds; if that is not less than the exact wait, the next say that reaches the
rate check after it passes, and otherwise one that comes right then does not. -/
theorem waiting_is_enough (records : List MsgRec) (now wall : Rat) (ops : List (Op F))
    (hops : Run.Always (Hub.step env) Forward (init env records now wall) ops) (c : ClientId)
    (frame : Obj F) (f : Say) (p : Participant) (detail : Str) (r : Option Rat)
    (hv : validate env.isPrintable frame = .ok (.say f)) :
    let h := Run.after (Hub.step env) (init env records now wall) ops
    h.get? (h.wire.clients c).name = some p →
    refusal env h p f = some (errRateLimited, detail, r) →
      r = some (p.bucket.wait h.now) ∧
      ToldToWait F p f h (h.step env (.handle c frame)) ∧
      (p.bucket.wait h.now ≤ advertised p h.now →
        ServedFrom (F := F) env (h.wire.clients c).name (h.step env (.handle c frame))
          (h.now + advertised p h.now)) ∧
      (advertised p h.now < p.bucket.wait h.now →
        TurnedAwayAt env F (h.wire.clients c).name f (h.step env (.handle c frame))
          (h.now + advertised p h.now)) := by
  intro h hp hr
  generalize hname : (h.wire.clients c).name = n at hp
  have hw : h.Wf := wf_run env records now wall ops
  have hfilled : AllFilled env n h := filled_run env records now wall hops
  have hstock := hfilled p (box?_of_get? hp)
  obtain ⟨hagent, htake, hwait⟩ := refusal_rated env hr
  have hlow : p.bucket.level h.now < 1 := by
    rw [← not_le, ← TokenBucket.take_iff, htake]
    exact Bool.false_ne_true
  -- the exact wait fills the bucket up to one token
  have hexact : p.bucket.level h.now + refillRate env * p.bucket.wait h.now = 1 := by
    have hrate := refillRate_pos env
    rw [TokenBucket.wait, hstock.rate]
    field_simp
    ring
  have hpos : 0 ≤ p.bucket.wait h.now := by
    refine div_nonneg (sub_nonneg.mpr hlow.le) ?_
    rw [hstock.rate]
    exact refillRate_nonneg env
  obtain ⟨q, hq, hqagent, hbucket⟩ := level_rated env hw hv hname hp hr
  obtain ⟨htold, hmuted, hroster⟩ := rated_step env hw hv hname hp hr
  have hw' : (h.step env (.handle c frame)).Wf := hw.step env _
  have hnow : (h.step env (.handle c frame)).now = h.now := now_step hw (by simp)
  have hfilled' : AllFilled env n (h.step env (.handle c frame)) :=
    filled_step env hw hfilled (by rintro _ _ ⟨⟩)
  have hlevel : levelOf env n (h.step env (.handle c frame)) = p.bucket.level h.now := by
    rw [levelOf_some env (box?_of_get? hq), hnow, hbucket, TokenBucket.level_refill]
  refine ⟨hwait, htold, fun hround later q' g hlater hq' htime => ?_,
    fun hround => ?_⟩
  · obtain ⟨-, -, hrises⟩ := level_run env hw' hfilled' hlater
    rw [hlevel, hnow, levelOf_some env (box?_of_get? hq')] at hrises
    refine not_rated env (TokenBucket.take_iff.mpr (le_trans (le_min ?_ ?_) hrises)) g
    · exact_mod_cast env.config.rateBurst_pos
    · have hrefill : refillRate env * p.bucket.wait h.now ≤
          refillRate env * ((Run.after (Hub.step env) (h.step env (.handle c frame)) later).now -
            h.now) :=
        mul_le_mul_of_nonneg_left (by linarith) (refillRate_nonneg env)
      linarith
  · have hshort : 0 ≤ advertised p h.now := roundTo_nonneg 3 hpos
    have hq' : ((h.step env (.handle c frame)).step env
        (.clock (h.now + advertised p h.now) 0 : Op F)).get? n = some q := hq
    have hlater : (h.step env (.handle c frame)).now ≤ h.now + advertised p h.now := by
      rw [hnow]
      linarith
    -- at that time the bucket is just short of a token
    have hempty : (q.bucket.take (h.now + advertised p h.now)).1 = false := by
      have hbound := TokenBucket.level_later (hfilled' q (box?_of_get? hq)).sound hlater
      have hless : refillRate env * advertised p h.now < refillRate env * p.bucket.wait h.now :=
        mul_lt_mul_of_pos_left hround (refillRate_pos env)
      rw [(hfilled' q (box?_of_get? hq)).rate, hnow, hbucket, TokenBucket.level_refill] at hbound
      rw [Bool.eq_false_iff, ne_eq, TokenBucket.take_iff, not_le, hbucket]
      have hshift : h.now + advertised p h.now - h.now = advertised p h.now := by ring
      rw [hshift] at hbound
      exact hbound.trans_lt (by linarith)
    refine ⟨[.clock (h.now + advertised p h.now) 0], q, ⟨⟨?_, fun _ _ _ => rfl⟩, trivial⟩, hq',
      le_rfl, fun g => rated env hqagent ?_ g, ?_⟩
    · rintro _ _ ⟨⟩
      exact hlater
    · exact hempty
    · rw [Run.after_cons, Run.after_nil]
      exact rated_again env hmuted hroster hr hqagent hempty

end

/-- Alice says three things at once; the clock goes on to `t`. -/
def burst (t : Rat) : List (Op Token) :=
  [.handle 0 (helloFrame "alice" "agent" []), .handle 0 (sayFrame "*" "claim" "a" false),
    .handle 0 (sayFrame "*" "claim" "b" false), .handle 0 (sayFrame "*" "claim" "c" false),
    .clock t t]

def afterBurst (t : Rat) : Hub := Run.after (Hub.step .still) (init .still [] 0 0) (burst t)

theorem claim_sayKind : str "claim" ∈ sayKinds := by decide

/-- Her fourth. -/
def fourth : Say :=
  ⟨everyone, str "claim", str "d", 1, false, by decide, claim_sayKind, by decide, by decide⟩

def fourthFrame : Obj Token := sayFrame "*" "claim" "d" false

theorem forward_burst {t : Rat} (ht : 0 ≤ t) :
    Run.Always (Hub.step .still) Forward (init .still [] 0 0) (burst t) := by
  refine ⟨?_, ?_, ?_, ?_, ?_, trivial⟩
  · rintro _ _ ⟨⟩
  · rintro _ _ ⟨⟩
  · rintro _ _ ⟨⟩
  · rintro _ _ ⟨⟩
  · rintro _ _ ⟨⟩
    refine le_trans (le_of_eq ?_) ht
    decide +kernel

/-- Five seconds after the burst the wait is five seconds. -/
theorem waiting_is_enough_five :
    ServedFrom (F := Token) .still ((afterBurst 5).wire.clients 0).name
      ((afterBurst 5).step .still (.handle 0 fourthFrame)) 10 := by
  have hall : ((afterBurst 5).get? ((afterBurst 5).wire.clients 0).name).map (fun p =>
      (refusal .still (afterBurst 5) p fourth, p.bucket.wait (afterBurst 5).now,
        advertised p (afterBurst 5).now)) =
      some (some (errRateLimited, str "rate limit", some 5), 5, 5) := by decide +kernel
  obtain ⟨p, hp, heq⟩ := Option.map_eq_some_iff.mp hall
  simp only [Prod.mk.injEq] at heq
  obtain ⟨hr, hwait, hadv⟩ := heq
  have hserved : p.bucket.wait (afterBurst 5).now ≤ advertised p (afterBurst 5).now →
      ServedFrom .still ((afterBurst 5).wire.clients 0).name
        ((afterBurst 5).step .still (.handle 0 fourthFrame))
          ((afterBurst 5).now + advertised p (afterBurst 5).now) :=
    (waiting_is_enough .still [] 0 0 (burst 5) (forward_burst (by decide)) 0
      fourthFrame fourth p _ _ rfl hp hr).2.2.1
  have hnow : (afterBurst 5).now = 5 := by decide +kernel
  have hten : (5 : Rat) + 5 = 10 := by norm_num
  rw [hwait, hadv, hnow, hten] at hserved
  exact hserved le_rfl

/-- **Rounding can shorten the wait.**  0.6 ms after the burst the exact wait is 9.9994 s and the frame
says 9.999 s; a say that comes right then is refused. -/
theorem wait_falls_short : ¬ ∀ (records : List MsgRec) (now wall : Rat)
    (ops : List (Op Token)),
    Run.Always (Hub.step .still) Forward (init .still records now wall) ops →
    ∀ (c : ClientId) (frame : Obj Token) (f : Say) (p : Participant) (detail : Str)
      (r : Option Rat), validate Env.still.isPrintable frame = .ok (.say f) →
    let h := Run.after (Hub.step .still) (init .still records now wall) ops
    h.get? (h.wire.clients c).name = some p →
    refusal .still h p f = some (errRateLimited, detail, r) →
      ServedFrom (F := Token) .still (h.wire.clients c).name
        (h.step .still (.handle c frame)) (h.now + advertised p h.now) := by
  intro hclaim
  have hall : ((afterBurst (3 / 5000)).get? ((afterBurst (3 / 5000)).wire.clients 0).name).map
      (fun p => (refusal .still (afterBurst (3 / 5000)) p fourth,
        advertised p (afterBurst (3 / 5000)).now)) =
      some (some (errRateLimited, str "rate limit", some (49997 / 5000)), 9999 / 1000) := by
    decide +kernel
  obtain ⟨p, hp, heq⟩ := Option.map_eq_some_iff.mp hall
  simp only [Prod.mk.injEq] at heq
  obtain ⟨hr, hadv⟩ := heq
  have hserved : ServedFrom .still ((afterBurst (3 / 5000)).wire.clients 0).name
      ((afterBurst (3 / 5000)).step .still (.handle 0 fourthFrame))
        ((afterBurst (3 / 5000)).now + advertised p (afterBurst (3 / 5000)).now) :=
    hclaim [] 0 0 (burst (3 / 5000)) (forward_burst (by decide +kernel)) 0 fourthFrame
      fourth p _ _ rfl hp hr
  have hnow : (afterBurst (3 / 5000)).now = 3 / 5000 := by decide +kernel
  obtain ⟨q, hq, hcode⟩ := Option.bind_eq_some_iff.mp (show
    ((Run.after (Hub.step .still) ((afterBurst (3 / 5000)).step .still (.handle 0 fourthFrame))
        [(.clock (49998 / 5000) 0 : Op Token)]).get?
          ((afterBurst (3 / 5000)).wire.clients 0).name).bind
      (fun q => (refusal .still (Run.after (Hub.step .still) ((afterBurst (3 / 5000)).step .still
        (.handle 0 fourthFrame)) [(.clock (49998 / 5000) 0 : Op Token)]) q fourth).map
          Prod.fst) = some errRateLimited by decide +kernel)
  refine hserved [.clock (49998 / 5000) 0] q fourth ⟨⟨?_, fun _ _ _ => rfl⟩, trivial⟩ hq ?_ hcode
  · rintro _ _ ⟨⟩
    decide +kernel
  · rw [hadv, hnow]
    decide +kernel

end Hub

end Moot
