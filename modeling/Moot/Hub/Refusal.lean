import Moot.Hub.Clean
import Moot.Hub.Memory
import Moot.Hub.Purse

/-!
# Refused says

The checks of `_route_say` in their order (`Hub.refusal`), what a refusal costs the
sender (`Hub.charged`), and what it puts on the wire.

Proved here: `refused_say`, in every run on clean strings a refused say leaves the floor
as it was, and `dedup_is_purged`, the one thing that a refusal does to the dedup window.
-/

namespace Moot
open Py Proto

namespace Hub

/-- The code, the detail and the time to wait that a say of `p` is refused with. -/
def refusal (env : Env) (h : Hub) (p : Participant) (f : Say) : Option (Str × Str × Option Rat) :=
  if p.isObserver = false ∧ h.frozen = true then
    some (errFrozen, str "hub is frozen — waiting for resume", none)
  else if p.isObserver = false ∧ h.muted = true ∧
      (f.addressee = everyone ∨ h.targetsAgent f.addressee = true) then
    some (errMuted,
      str "mute mode active (broadcast and agent→agent blocked; direct to observers allowed)", none)
  else if f.addressee ≠ everyone ∧ h.participants.contains f.addressee = false then
    some (errUnknownRecipient, str "unknown recipient " ++ reprStr env.isPrintable f.addressee ++
      str " — roster: " ++ h.rosterDetail, none)
  else if p.isObserver then none
  else if (p.bucket.take h.now).1 = false then
    some (errRateLimited, str "rate limit", some ((p.bucket.take h.now).2.retryAfter h.now).1)
  else if (p.dedup.see h.now (env.sha256 (dedupText f.addressee f.text f.priv))).1 = true then
    some (errDuplicate, str "identical message within dedup window", none)
  else none

/-- What a refusal with `code` leaves of the sender. -/
def charged (h : Hub) (code : Str) (p : Participant) : Participant :=
  if code = errRateLimited then { p with bucket := p.bucket.refill h.now }
  else if code = errDuplicate then
    { p with bucket := (p.bucket.take h.now).2, dedup := p.dedup.expire h.now }
  else p

/-- The texts that the checks encode before a refusal with `code`. -/
def hashed (f : Say) (code : Str) : List Effect :=
  if code = errDuplicate then [.encode (dedupText f.addressee f.text f.priv)] else []

/-- The event of a refusal. -/
def rejectedEvent (p : Participant) (f : Say) (code : Str) (retryAfter : Option Rat) : HubEvent :=
  .rejected p.name code f.addressee f.kind (byteLen f.text) retryAfter f.priv

/-- **A refusal** with `code`, `detail` and `retryAfter`: from `h` to `h'` the sender is charged,
the rest of the hub but the wire is as it was, one `err` goes to the sender, and one event to the
observers, unless the sender is one. -/
structure Refused (h : Hub) (p : Participant) (f : Say) (code detail : Str)
    (retryAfter : Option Rat) (h' : Hub) : Prop where
  rest : h' = (h.modify p.name (h.charged code)).setWire h'.wire
  wire : h.wire.Le h'.wire
  log : ∃ told : List Participant,
    h'.wire.log = h.wire.log ++ hashed f code ++
      .send p.name p.client (h.up p.client) (.err code detail (some f.seq) retryAfter) ::
        (if p.isObserver then []
        else .encode f.text ::
          told.map (fun q => .send q.name q.client true (.event (rejectedEvent p f code retryAfter))) ++
            [.append h.wall (.event (rejectedEvent p f code retryAfter) h.wall)]) ∧
    told.Sublist (h.participants.values.filter (·.isObserver)) ∧
    (∀ q ∈ told, h.up q.client = true) ∧
    ∀ q ∈ h.participants.values, q.isObserver = true → p.isObserver = false →
      h'.up q.client = true → q ∈ told

section
variable (env : Env) {h : Hub}

/-! ## The log of a refusal -/

/-- An event is told to the observers that are connected when their turn comes. -/
theorem tellAll_log (e : HubEvent) (ps : List Participant) (w : Wire) :
    ∃ told : List Participant,
      (ps.foldl (tellEvent env e none) w).log =
        w.log ++ told.map (fun q => Effect.send q.name q.client true (.event e)) ∧
      told.Sublist (ps.filter (·.isObserver)) ∧
      (∀ q ∈ told, (w.clients q.client).connected = true) ∧
      ∀ q ∈ ps, q.isObserver = true →
        ((ps.foldl (tellEvent env e none) w).clients q.client).connected = true → q ∈ told := by
  induction ps generalizing w with
  | nil => exact ⟨[], by simp, by simp, by simp, by simp⟩
  | cons p ps ih =>
    obtain ⟨told, hlog, hsub, hup, hall⟩ := ih (tellEvent env e none w p)
    have hle := (quiet_tellEvent env e none w p).toLe
    have hrest := (quiet_tellAll env e none ps (tellEvent env e none w p)).toLe
    by_cases htell : p.isObserver = true ∧ (w.clients p.client).connected = true
    · have hone : tellEvent env e none w p = w.send env p.name p.client (.event e) := by
        simp [tellEvent, htell]
      refine ⟨p :: told, ?_, ?_, fun q hq => ?_, fun q hq hobs hq' => ?_⟩
      · rw [List.foldl_cons, hlog, hone]
        simp [Wire.send, Wire.tick, Wire.effect, htell.2]
      · rw [List.filter_cons_of_pos htell.1]
        exact hsub.cons_cons p
      · rcases List.mem_cons.mp hq with rfl | hq
        · exact htell.2
        · exact hle.down _ (hup q hq)
      · rcases List.mem_cons.mp hq with rfl | hq
        · exact List.mem_cons_self ..
        · exact List.mem_cons_of_mem _ (hall q hq hobs hq')
    · have hone : tellEvent env e none w p = w := by
        unfold tellEvent
        rw [if_neg]
        simpa using htell
      refine ⟨told, ?_, hsub.trans (List.Sublist.filter _ (List.sublist_cons_self p ps)),
        fun q hq => hle.down _ (hup q hq), fun q hq hobs hq' => ?_⟩
      · rw [List.foldl_cons, hlog, hone]
      · rcases List.mem_cons.mp hq with rfl | hq
        · exact absurd ⟨hobs, hle.down _ (hrest.down _ hq')⟩ htell
        · exact hall q hq hobs hq'

/-- To charge an agent leaves the observers as they are. -/
theorem observers_modify (h : Hub) {n : Str} {f : Participant → Participant}
    (hf : ∀ q, h.get? n = some q → q.isObserver = false ∧ (f q).isObserver = false) :
    (h.modify n f).participants.values.filter (·.isObserver) =
      h.participants.values.filter (·.isObserver) := by
  have hentry : ∀ e ∈ h.participants.entries, ∀ q : Participant,
      q = (if e.1 = n then (e.1, f e.2) else e).2 → (q.isObserver = true → q = e.2) ∧
        q.isObserver = e.2.isObserver := by
    rintro ⟨m, p⟩ he q rfl
    by_cases hm : m = n
    · subst hm
      have := hf p (Dict.get?_eq_some_iff.mpr he)
      simp [this.1, this.2]
    · simp [hm]
  simp only [modify, Dict.modify, Dict.values, List.map_map]
  generalize h.participants.entries = es at hentry
  induction es with
  | nil => rfl
  | cons e es ih =>
    have hrest := ih fun e' he' => hentry e' (List.mem_cons_of_mem _ he')
    obtain ⟨hsame, hobs⟩ := hentry e (List.mem_cons_self ..) _ rfl
    simp only [List.map_cons, Function.comp_apply]
    by_cases hq : e.2.isObserver = true
    · rw [List.filter_cons_of_pos (hobs.trans hq), List.filter_cons_of_pos hq, hrest,
        hsame (hobs.trans hq)]
    · rw [List.filter_cons_of_neg (by rw [hobs]; exact hq), List.filter_cons_of_neg hq, hrest]

/-- A refusal, once the sender is charged. -/
theorem refused_refuse (p : Participant) (f : Say) (code detail : Str) (r : Option Rat) {k : Hub}
    (hrest : k = (h.modify p.name (h.charged code)).setWire k.wire)
    (hclients : k.wire.clients = h.wire.clients)
    (hlog : k.wire.log = h.wire.log ++ hashed f code)
    (hobservers : k.participants.values.filter (·.isObserver) =
      h.participants.values.filter (·.isObserver)) :
    Refused h p f code detail r (k.refuse env p f code detail r) := by
  have hq := quiet_refuse env k p f code detail r
  have hle : h.wire.Le k.wire :=
    ⟨fun c => by rw [hclients], fun c hc => by rw [← hclients]; exact hc,
      by rw [hlog]; exact List.prefix_append _ _⟩
  have hwall : k.wall = h.wall := by rw [hrest]; rfl
  have herr : (k.err env p code detail (some f.seq) r).wire.log =
      h.wire.log ++ hashed f code ++
        [.send p.name p.client (h.up p.client) (.err code detail (some f.seq) r)] := by
    have hup : (k.wire.clients p.client).connected = h.up p.client := by rw [hclients]; rfl
    rw [← hlog, ← hup]
    rfl
  refine ⟨?_, hle.trans hq.wire.toLe, ?_⟩
  · have hsame := hq.rest
    rw [hrest] at hsame ⊢
    exact hsame
  · by_cases hobs : p.isObserver = true
    · refine ⟨[], ?_, by simp, by simp, fun q _ _ hagent => ?_⟩
      · have hnone : k.refuse env p f code detail r = k.err env p code detail (some f.seq) r := by
          simp [refuse, emitRejected, hobs]
        rw [hnone, herr, hobs]
        rfl
      · rw [hobs] at hagent
        cases hagent
    · obtain ⟨x, hx⟩ : ∃ x : Hub, x = (k.err env p code detail (some f.seq) r).encodeText f.text :=
        ⟨_, rfl⟩
      have hxlog : x.wire.log = h.wire.log ++ hashed f code ++
          [.send p.name p.client (h.up p.client) (.err code detail (some f.seq) r)] ++
            [.encode f.text] := by rw [← herr, hx]; rfl
      have hxle : k.wire.Le x.wire := by
        rw [hx]
        exact ((quiet_err env k p code detail _ r).wire.trans
          (quiet_encodeText _ f.text).wire).toLe
      have hxwall : x.wall = h.wall := by rw [hx]; exact hwall
      have hxobs : x.participants.values.filter (·.isObserver) =
          h.participants.values.filter (·.isObserver) := by rw [hx]; exact hobservers
      have heq : k.refuse env p f code detail r =
          x.emitEvent env (rejectedEvent p f code r) none := by
        simp [refuse, emitRejected, hobs, hx, rejectedEvent]
      obtain ⟨told, htold, hsub, hup, hall⟩ :=
        tellAll_log env (rejectedEvent p f code r) x.participants.values x.wire
      refine ⟨told, ?_, by rw [← hxobs]; exact hsub,
        fun q hq => hle.down _ (hxle.down _ (hup q hq)), fun q hq hobs' _ hconn => ?_⟩
      · rw [heq]
        show (x.participants.values.foldl _ x.wire).log ++
          [.append x.wall (.event _ x.wall)] = _
        rw [htold, hxlog, hxwall]
        simp [hobs]
      · have hmem : q ∈ x.participants.values.filter (·.isObserver) := by
          rw [hxobs]
          exact List.mem_filter.mpr ⟨hq, hobs'⟩
        rw [heq] at hconn
        exact hall q (List.mem_filter.mp hmem).1 hobs' hconn

/-! ## The checks -/

theorem refill_refill (b : TokenBucket) (now : Rat) : (b.refill now).refill now = b.refill now := by
  by_cases helapsed : now - b.last > 0
  · simp [TokenBucket.refill, helapsed]
  · simp [TokenBucket.refill, helapsed]

/-- A failed `take` and the question for the time to wait only refill the bucket. -/
theorem retryAfter_take {b : TokenBucket} {now : Rat} (htake : (b.take now).1 = false) :
    ((b.take now).2.retryAfter now).2 = b.refill now := by
  have hfailed : (b.take now).2 = b.refill now := by
    unfold TokenBucket.take at htake ⊢
    simp only at htake ⊢
    split
    · next htok => simp [htok] at htake
    · rfl
  rw [hfailed, TokenBucket.retryAfter, refill_refill]
  split <;> rfl

/-- A duplicate costs a token, and drops the keys that have left the window. -/
theorem see_dup {d : DedupWindow} {now : Rat} {key : Str} (hseen : (d.see now key).1 = true) :
    (d.see now key).2 = d.expire now := by
  unfold DedupWindow.see at hseen ⊢
  simp only at hseen ⊢
  split
  · rfl
  · next hnew => simp [hnew] at hseen

/-- **`_route_say` refuses by the first check that fails**, and accepts if none does. -/
theorem routeSay_refusal (hn : h.Named) {n : Str} {p : Participant} (hp : h.get? n = some p)
    (f : Say) :
    ((h.routeSay env n f).1 = true ↔ refusal env h p f = none) ∧
      ∀ code detail r, refusal env h p f = some (code, detail, r) →
        Refused h p f code detail r (h.routeSay env n f).2 := by
  have hname := hn n p hp
  subst hname
  have hfree : ∀ code detail r, code ≠ errRateLimited → code ≠ errDuplicate →
      Refused h p f code detail r (h.refuse env p f code detail r) := by
    intro code detail r hrate hdup
    have hcharge : h.charged code = id := by
      funext q
      simp [charged, hrate, hdup]
    refine refused_refuse env p f code detail r ?_ rfl (by simp [hashed, hdup]) rfl
    rw [hcharge]
    have hsame : h.modify p.name id = h := by
      rw [modify, Dict.modify_self (f := id) fun _ _ => rfl]
    rw [hsame]
    rfl
  unfold refusal
  rw [routeSay, hp]
  simp only
  split_ifs with hfrozen hmuted hunknown hobs hrate hdup
  · refine ⟨by simp, ?_⟩
    rintro code detail r ⟨⟩
    exact hfree _ _ _ (by decide) (by decide)
  · refine ⟨by simp, ?_⟩
    rintro code detail r ⟨⟩
    exact hfree _ _ _ (by decide) (by decide)
  · refine ⟨by simp, ?_⟩
    rintro code detail r ⟨⟩
    exact hfree _ _ _ (by decide) (by decide)
  · exact ⟨by simp, by rintro _ _ _ ⟨⟩⟩
  · refine ⟨by simp, ?_⟩
    rintro code detail r ⟨⟩
    have hagent : p.isObserver = false := by simpa using hobs
    have hcharge : h.modify p.name (fun q =>
          { q with bucket := ((p.bucket.take h.now).2.retryAfter h.now).2 }) =
        h.modify p.name (h.charged errRateLimited) := by
      rw [modify, modify, Dict.modify_congr fun q hq => ?_]
      have hpq : h.participants.get? p.name = some p := hp
      rw [hpq, Option.some.injEq] at hq
      subst hq
      rw [retryAfter_take hrate]
      rfl
    have hrefused := refused_refuse env (h := h) p f errRateLimited (str "rate limit")
      (some ((p.bucket.take h.now).2.retryAfter h.now).1)
      (k := h.modify p.name (h.charged errRateLimited)) rfl rfl
      (by rw [hashed, if_neg (by decide), List.append_nil]; rfl)
      (observers_modify h fun q hq => by
        rw [hp, Option.some.injEq] at hq
        subst hq
        exact ⟨hagent, hagent⟩)
    rw [← hcharge] at hrefused
    exact hrefused
  · refine ⟨by simp, ?_⟩
    rintro code detail r ⟨⟩
    have hagent : p.isObserver = false := by simpa using hobs
    have hcharge : (h.encodeText (dedupText f.addressee f.text f.priv)).modify p.name (fun q =>
          { q with bucket := (p.bucket.take h.now).2, dedup := (p.dedup.see h.now (env.sha256
            (dedupText f.addressee f.text f.priv))).2 }) =
        (h.encodeText (dedupText f.addressee f.text f.priv)).modify p.name
          (h.charged errDuplicate) := by
      rw [modify, modify, Dict.modify_congr fun q hq => ?_]
      have hpq : h.participants.get? p.name = some p := hp
      rw [show (h.encodeText (dedupText f.addressee f.text f.priv)).participants.get? p.name = some p
        from hp, Option.some.injEq] at hq
      subst hq
      rw [see_dup hdup]
      rfl
    have hrefused := refused_refuse env (h := h) p f errDuplicate
      (str "identical message within dedup window") none
      (k := (h.encodeText (dedupText f.addressee f.text f.priv)).modify p.name
        (h.charged errDuplicate)) rfl rfl (by rw [hashed, if_pos rfl]; rfl)
      (observers_modify h fun q hq => by
        rw [hp, Option.some.injEq] at hq
        subst hq
        exact ⟨hagent, hagent⟩)
    rw [← hcharge] at hrefused
    exact hrefused
  · exact ⟨by simp, by rintro _ _ _ ⟨⟩⟩

/-- An agent's say that the checks let through has taken a token. -/
theorem routeSay_accepts {n : Str} {p : Participant} (hp : h.get? n = some p)
    (hagent : p.isObserver = false) {f : Say} (hr : refusal env h p f = none) :
    (p.bucket.take h.now).1 = true ∧ ∃ d, h.routeSay env n f =
      (true, ((h.encodeText (dedupText f.addressee f.text f.priv)).modify n fun q =>
        { q with bucket := (p.bucket.take h.now).2, dedup := d }).accept env p f) := by
  rw [routeSay, hp]
  unfold refusal at hr
  simp only [hagent, Bool.false_eq_true, if_false, true_and] at hr ⊢
  split_ifs at hr with hfrozen hmuted hunknown hrate hdup
  rw [if_neg hfrozen, if_neg hmuted, if_neg hunknown, if_neg hrate, if_neg hdup]
  exact ⟨by simpa using hrate, _, rfl⟩

/-- A duplicate has taken a token. -/
theorem take_of_duplicate {p : Participant} {f : Say} {detail : Str} {r : Option Rat}
    (hr : refusal env h p f = some (errDuplicate, detail, r)) : (p.bucket.take h.now).1 = true := by
  have hother : ∀ {code detail' : Str} {r' : Option Rat}, code ≠ errDuplicate →
      some (code, detail', r') ≠ some (errDuplicate, detail, r) := fun hne heq =>
    hne (congrArg Prod.fst (Option.some.inj heq))
  unfold refusal at hr
  split_ifs at hr with hfrozen hmuted hunknown hobs hrate hdup
  · exact absurd hr (hother (by decide))
  · exact absurd hr (hother (by decide))
  · exact absurd hr (hother (by decide))
  · exact absurd hr (hother (by decide))
  · simpa using hrate

/-! ## What a refusal leaves alone -/

/-- The floor is as it was, but for the sender `n`: it was heard, and charged for a refusal with
`code`. -/
structure LeftAlone (n code : Str) (h h' : Hub) : Prop where
  others : ∀ m, m ≠ n → h'.get? m = h.get? m
  sender : ∀ p, h.get? n = some p →
    h'.get? n = some (h.charged code { p with lastRx := h.now, awaitingPong := false })
  dead : h'.dead = h.dead
  round : h'.round = h.round ∧ h'.maxRounds = h.maxRounds
  flags : h'.frozen = h.frozen ∧ h'.muted = h.muted ∧ h'.goal = h.goal
  ids : h'.msgCounter = h.msgCounter ∧ h'.recent = h.recent
  stall : h'.lastActivity = h.lastActivity ∧ h'.stallLatched = h.stallLatched
  quorum : h'.lastObserverSay = h.lastObserverSay ∧ h'.quorumExpected = h.quorumExpected ∧
    h'.quorumLatched = h.quorumLatched
  session : h'.sessionDoneAt = h.sessionDoneAt
  blocked : h'.blockedNotified = h.blockedNotified
  said : saidAt h'.wire.log = saidAt h.wire.log

variable {env}

theorem Refused.said {p : Participant} {f : Say} {code detail : Str} {r : Option Rat} {h' : Hub}
    (hr : Refused h p f code detail r h') : saidAt h'.wire.log = saidAt h.wire.log := by
  obtain ⟨told, hlog, -⟩ := hr.log
  have hhashed : saidAt (hashed f code) = [] := by
    unfold hashed
    split <;> rfl
  rw [hlog, saidAt_append, saidAt_append, hhashed, List.append_nil, List.append_right_eq_self]
  refine List.filterMap_eq_nil_iff.mpr fun e he => ?_
  rcases List.mem_cons.mp he with rfl | he
  · rfl
  split at he
  · cases he
  · simp only [List.mem_append, List.mem_cons, List.mem_map] at he
    rcases he with (rfl | ⟨q, -, rfl⟩) | rfl | he
    · rfl
    · rfl
    · rfl
    · cases he

theorem Refused.leftAlone (hn : h.Named) {n : Str} {p : Participant} (hp : h.get? n = some p)
    {f : Say} {code detail : Str} {r : Option Rat} {h' : Hub}
    (hr : Refused (h.lifeSign n) { p with lastRx := h.now, awaitingPong := false } f code detail r
      h') : LeftAlone n code h h' := by
  obtain rfl := hn n p hp
  have hrest := hr.rest
  have hget : ∀ m, h'.get? m = ((h.lifeSign p.name).modify p.name ((h.lifeSign p.name).charged
      code)).get? m := fun m => by rw [hrest]; rfl
  refine ⟨fun m hm => ?_, fun q hq => ?_, ?_, ?_, ?_, ?_, ?_, ?_, ?_, ?_, hr.said⟩
  · rw [hget, get?_modify_of_ne _ hm, lifeSign, get?_modify_of_ne _ hm]
  · rw [hget, get?_modify_self, lifeSign, get?_modify_self, hq]
    rfl
  all_goals rw [hrest]
  · rfl
  · exact ⟨rfl, rfl⟩
  · exact ⟨rfl, rfl, rfl⟩
  · exact ⟨rfl, rfl⟩
  · exact ⟨rfl, rfl⟩
  · exact ⟨rfl, rfl, rfl⟩
  · rfl
  · rfl

/-! ## The same say again -/

/-- What the checks of a say see of the floor is the same. -/
structure SameChecks (h h' : Hub) : Prop where
  frozen : h'.frozen = h.frozen
  muted : h'.muted = h.muted
  now : h'.now = h.now
  roster : ∀ m, (h'.get? m).map (·.isObserver) = (h.get? m).map (·.isObserver)

section
variable {h' : Hub} (hroster : ∀ m, (h'.get? m).map (·.isObserver) = (h.get? m).map (·.isObserver))
include hroster

theorem contains_congr (m : Str) : h'.participants.contains m = h.participants.contains m := by
  have := congrArg Option.isSome (hroster m)
  simpa [Dict.contains, get?] using this

theorem targetsAgent_congr (m : Str) : h'.targetsAgent m = h.targetsAgent m := by
  have := congrArg (Option.any (!·)) (hroster m)
  simpa [Hub.targetsAgent, Option.any_map, Function.comp_def] using this

end

/-- The code of a refusal depends on the floor, the bucket and the dedup window alone. -/
theorem SameChecks.refusal {h' : Hub} (hs : SameChecks h h') {q q' : Participant}
    (hobs : q'.isObserver = q.isObserver) (hbucket : q'.bucket = q.bucket)
    (hdedup : q'.dedup = q.dedup) (f : Say) :
    (refusal env h' q' f).map Prod.fst = (refusal env h q f).map Prod.fst := by
  unfold Hub.refusal
  rw [hs.frozen, hs.muted, hs.now, contains_congr hs.roster, targetsAgent_congr hs.roster, hobs,
    hbucket, hdedup]
  split
  · rfl
  split
  · rfl
  split
  · rfl
  split
  · rfl
  split
  · rfl
  split <;> rfl

variable {F : Type} [PyJson.PyFloat F]

variable (env) in
/-- In the run, which brings clean strings only, `n` says nothing and its registration is kept. -/
def SaysNothing (n : Str) : Hub → List (Op F) → Prop :=
  Run.Always (Hub.attempt env) fun h op =>
    op.Clean env ∧ Allowed env (notSayOf n) h op ∧ (h.attempt env op).box? n ≠ none

/-- While it says nothing, a registration keeps its bucket and its dedup window. -/
theorem kept_run (htime : ∀ t, Py.Clean (env.timeOfDay t)) {n : Str} (hw : h.Wf) (hh : h.Clean)
    {ops : List (Op F)} (hops : SaysNothing env n h ops) {p : Participant}
    (hp : h.box? n = some p) :
    ∃ q, (Run.after (Hub.attempt env) h ops).box? n = some q ∧ q.bucket = p.bucket ∧
      q.dedup = p.dedup := by
  refine (Run.invariant (I := fun k => k.Wf ∧ k.Clean ∧ ∃ q, k.box? n = some q ∧
    q.bucket = p.bucket ∧ q.dedup = p.dedup) ?_ ⟨hw, hh, p, hp, rfl, rfl⟩ hops).2.2
  rintro k op ⟨hk, hkc, q, hq, hbucket, hdedup⟩ ⟨hopc, hop, hkept⟩
  obtain ⟨-, hsame, hclean⟩ := attempt_eq htime hkc hopc
  rw [hsame] at hkept ⊢
  refine ⟨hk.step env op, hclean, ?_⟩
  rcases saved_step hk hop with hs | ⟨-, hnone, -⟩
  · cases hs with
    | kept q₀ q' found found' unspent =>
      rw [hq, Option.some.injEq] at found
      subst found
      exact ⟨q', found', unspent.bucket.trans hbucket, unspent.dedup.trans hdedup⟩
    | absent away _ =>
      rw [hq] at away
      cases away
    | fresh _ away _ _ =>
      rw [hq] at away
      cases away
  · exact absurd hnone hkept

/-! ## A refused say -/

variable (env)

theorem refusal_lifeSign (h : Hub) (n : Str) (p : Participant) (f : Say) :
    refusal env (h.lifeSign n) { p with lastRx := h.now, awaitingPong := false } f =
      refusal env h p f := by
  have hroster : ∀ m, ((h.lifeSign n).get? m).map (·.isObserver) =
      (h.get? m).map (·.isObserver) := by
    intro m
    by_cases hm : m = n
    · subst hm
      rw [lifeSign, get?_modify_self, Option.map_map]
      rfl
    · rw [lifeSign, get?_modify_of_ne h hm]
  have hsame : SameChecks h (h.lifeSign n) := ⟨rfl, rfl, rfl, hroster⟩
  have hdetail : (h.lifeSign n).rosterDetail = h.rosterDetail := by
    simp only [rosterDetail, lifeSign, modify, Dict.keys_modify]
  unfold Hub.refusal
  rw [contains_congr hroster, targetsAgent_congr hroster, hdetail]
  rfl

theorem refused_dispatch (hw : h.Wf) {c : ClientId} {n : Str} (hname : (h.wire.clients c).name = n)
    {p : Participant} (hp : h.get? n = some p) {f : Say} {code detail : Str} {r : Option Rat}
    (hr : refusal env h p f = some (code, detail, r)) :
    ∃ k, Refused (h.lifeSign n) { p with lastRx := h.now, awaitingPong := false } f code detail r k ∧
      LeftAlone n code h k ∧ h.dispatch env c (.say f) = k.inferIdle env n := by
  have hlife : Keeps ∅ ∅ True h (h.lifeSign n) := keeps_lifeSign h n
  have hp₁ : (h.lifeSign n).get? n = some { p with lastRx := h.now, awaitingPong := false } := by
    rw [lifeSign, get?_modify_self, hp]
    rfl
  obtain ⟨haccepted, hrefused⟩ := routeSay_refusal env (hlife.named hw.named) hp₁ f
  have hr₁ := (refusal_lifeSign env h n p f).trans hr
  have hk := hrefused code detail r hr₁
  have hno : ((h.lifeSign n).routeSay env n f).1 = false := by
    rw [Bool.eq_false_iff, Ne, haccepted, hr₁]
    exact Option.some_ne_none _
  refine ⟨_, hk, hk.leftAlone hw.named hp, ?_⟩
  unfold dispatch
  rw [hname]
  simp only [hp, handleSay, hno, settle, Bool.false_eq_true, false_and, if_false]
  split <;> rfl

/-- **A refused say leaves the floor as it was** in every run on clean strings, but for the idle
inference that follows it; and once the cause is gone, a say that was refused before the rate check
is treated as if it had never been sent. -/
theorem refused_say (records : List MsgRec) (now wall : Rat) (ops : List (Op F))
    (hc : CleanRun env records ops) :
    let h := Run.after (Hub.attempt env) (init env records now wall) ops
    (∀ n p f, h.get? n = some p → ((h.routeSay env n f).1 = true ↔ refusal env h p f = none)) ∧
    ∀ c (frame : Obj F) f p code detail r, (Op.handle c frame).Clean env →
      validate env.isPrintable frame = .ok (.say f) →
      h.get? (h.wire.clients c).name = some p → refusal env h p f = some (code, detail, r) →
      ∃ k, Refused (h.lifeSign (h.wire.clients c).name)
          { p with lastRx := h.now, awaitingPong := false } f code detail r k ∧
        LeftAlone (h.wire.clients c).name code h k ∧
        h.attempt env (.handle c frame) = k.inferIdle env (h.wire.clients c).name ∧
        (code = errFrozen ∨ code = errMuted ∨ code = errUnknownRecipient →
          ∀ again never : List (Op F),
            SaysNothing env (h.wire.clients c).name (h.attempt env (.handle c frame)) again →
            SaysNothing env (h.wire.clients c).name h never →
            SameChecks (Run.after (Hub.attempt env) h never)
              (Run.after (Hub.attempt env) (h.attempt env (.handle c frame)) again) →
            ∀ q q', (Run.after (Hub.attempt env) h never).get? (h.wire.clients c).name = some q →
              (Run.after (Hub.attempt env) (h.attempt env (.handle c frame)) again).get?
                (h.wire.clients c).name = some q' →
              (refusal env (Run.after (Hub.attempt env) (h.attempt env (.handle c frame)) again) q'
                f).map Prod.fst =
                (refusal env (Run.after (Hub.attempt env) h never) q f).map Prod.fst) := by
  intro h
  obtain ⟨hw, hh⟩ : h.Wf ∧ h.Clean := hc.sound now wall
  refine ⟨fun n p f hp => (routeSay_refusal env hw.named hp f).1,
    fun c frame f p code detail r hframe hv hp hr => ?_⟩
  obtain ⟨-, hsame, hclean⟩ := attempt_eq hc.time hh hframe
  rw [hsame]
  generalize hname : (h.wire.clients c).name = n at hp ⊢
  obtain ⟨k, hk, halone, hstep⟩ := refused_dispatch env hw hname hp hr
  have hstep' : h.step env (.handle c frame) = k.inferIdle env n := by
    rw [← hstep]
    show h.handle env c frame = _
    rw [handle, hv]
    rfl
  refine ⟨k, hk, halone, hstep', fun hcode again never hagain hnever hchecks q q' hq hq' => ?_⟩
  -- the refusal charged nothing, and neither does the inference
  have hcharge : h.charged code { p with lastRx := h.now, awaitingPong := false } =
      { p with lastRx := h.now, awaitingPong := false } := by
    rcases hcode with rfl | rfl | rfl <;> rfl
  have hsender := halone.sender p hp
  rw [hcharge] at hsender
  have hafter := (funded_inferIdle env k n).box n
  rw [box?_of_get? hsender, Option.map_some, Option.map_eq_some_iff, ← hstep'] at hafter
  obtain ⟨p₁, hp₁, hpurse⟩ := hafter
  obtain ⟨q₁, hq₁, hbucket₁, hdedup₁⟩ := kept_run hc.time (hw.step env _) hclean hagain hp₁
  obtain ⟨q₀, hq₀, hbucket₀, hdedup₀⟩ := kept_run hc.time hw hh hnever (box?_of_get? hp)
  rw [box?_of_get? hq', Option.some.injEq] at hq₁
  rw [box?_of_get? hq, Option.some.injEq] at hq₀
  subst hq₁ hq₀
  have hobs := hchecks.roster n
  rw [hq, hq', Option.map_some, Option.map_some, Option.some.injEq] at hobs
  refine hchecks.refusal hobs ?_ ?_ f
  · rw [hbucket₁, hbucket₀]
    exact congrArg Purse.bucket hpurse
  · rw [hdedup₁, hdedup₀]
    exact congrArg Purse.dedup hpurse

end

/-- A hub on which alice is alone. -/
def alone : Hub :=
  Run.after (Hub.attempt .still) (init .still [] 0 0) [.handle 0 (helloFrame "alice" "agent" [])]

/-- Alice's say to nobody. -/
def strayFrame : Obj PyJson.Token := sayFrame "bob" "claim" "hi" false

def stray : Say :=
  ⟨str "bob", str "claim", str "hi", 1, false, by decide, by decide, by decide, by decide⟩

theorem refused_say_stray :
    ∃ p, alone.get? (alone.wire.clients 0).name = some p ∧
      ∃ k, LeftAlone (alone.wire.clients 0).name errUnknownRecipient alone k ∧
        alone.attempt .still (.handle 0 strayFrame) = k.inferIdle .still (alone.wire.clients 0).name := by
  have hthere : (alone.get? (alone.wire.clients 0).name).isSome = true := by decide +kernel
  obtain ⟨p, hp⟩ := Option.isSome_iff_exists.mp hthere
  have hv : validate Env.still.isPrintable strayFrame = .ok (.say stray) := rfl
  have hcode : ((alone.get? (alone.wire.clients 0).name).bind fun p =>
      (refusal .still alone p stray).map Prod.fst) = some errUnknownRecipient := by decide +kernel
  rw [hp, Option.bind_some, Option.map_eq_some_iff] at hcode
  obtain ⟨⟨code, detail, r⟩, hr, rfl⟩ := hcode
  obtain ⟨k, -, halone, hstep, -⟩ := (refused_say .still [] 0 0
    [.handle 0 (helloFrame "alice" "agent" [])]
    ⟨fun _ => clean_nil, by simp, by decide +kernel⟩).2 0 strayFrame stray p _ detail r
    (by decide +kernel) hv hp hr
  exact ⟨p, hp, k, halone, hstep⟩

/-- Alice says "a", and "b" when that is 100 seconds ago; the clock goes on by 30 seconds. -/
def twoSays : Hub :=
  Run.after (Hub.attempt .still) (init .still [] 0 0)
    [.handle 0 (helloFrame "alice" "agent" []), .handle 0 (sayFrame "*" "claim" "a" false),
      .clock 100 100, .handle 0 (sayFrame "*" "claim" "b" false), .clock 130 130]

/-- The keys in the dedup window of `n`. -/
def dedupKeys (h : Hub) (n : Str) : Option Nat := (h.get? n).map (·.dedup.seen.keys.length)

/-- **A refusal may change the dedup window**: to refuse a duplicate drops the keys that have left
it. -/
theorem dedup_is_purged :
    ((twoSays.get? (str "alice")).bind fun p =>
        (refusal .still twoSays p ⟨everyone, str "claim", str "b", 1, false, by decide, by decide,
          by decide, by decide⟩).map Prod.fst) = some errDuplicate ∧
      twoSays.dedupKeys (str "alice") = some 2 ∧
      (twoSays.attempt .still (.handle 0 (sayFrame "*" "claim" "b" false))).dedupKeys (str "alice") =
        some 1 := by
  decide +kernel

end Hub

end Moot
