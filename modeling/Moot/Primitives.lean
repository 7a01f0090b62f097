import Moot.Types
import Moot.Lib.Dict

/-!
# Configuration and primitives

`config.py` as far as the hub reads it, and the three data structures every
participant carries: the token bucket (`bucket.py`), the context buffer
(`buffer.py`) and the dedup window (`dedup.py`).  The positivity that their
constructors check is a field of the configuration and of the structures.

Proved here: `ContextBuffer.append_items` and `ContextBuffer.drain_eq`, what one
append and one drain do to a bounded buffer.
-/

namespace Moot
open Py

/-- `Config`, the fields the hub reads. -/
structure Config where
  contextCap : Nat := 15
  deliverWakeCap : Nat := 10
  queueCap : Nat := 100
  backlogOnJoin : Nat := 10
  recentWindow : Nat := 200
  rateMessages : Nat := 6
  rateWindow : Rat := 60
  rateBurst : Nat := 3
  dedupWindow : Rat := 120
  maxRounds : Nat := 24
  assumeIdleAfter : Rat := 90
  stallAfter : Rat := 60
  presentWithin : Rat := 60
  blockedAfter : Rat := 60
  deadAfter : Rat := 300
  deadTtl : Rat := 24 * 3600
  pongTimeout : Rat := 30
  notifications : Bool := true
  contextCap_pos : 0 < contextCap := by decide
  deliverWakeCap_pos : 0 < deliverWakeCap := by decide
  queueCap_pos : 0 < queueCap := by decide
  rateMessages_pos : 0 < rateMessages := by decide
  rateWindow_pos : 0 < rateWindow := by decide
  rateBurst_pos : 0 < rateBurst := by decide

/-! ## Numbers -/

/-- The integer nearest to `x`, the even one of two. -/
def roundHalfEven (x : Rat) : Int :=
  let f := x.floor
  let d := x - f
  if d < 1 / 2 then f
  else if 1 / 2 < d then f + 1
  else if f % 2 = 0 then f else f + 1

/-- `round(x, k)` -/
def roundTo (k : Nat) (x : Rat) : Rat := roundHalfEven (x * 10 ^ k) / 10 ^ k

/-- `xs[-n:]`; for `n = 0` that is all of `xs`. -/
def lastN {α : Type} (n : Nat) (xs : List α) : List α :=
  if n = 0 then xs else xs.drop (xs.length - n)

theorem lastN_suffix {α : Type} (n : Nat) (xs : List α) : lastN n xs <:+ xs := by
  unfold lastN
  split
  · exact List.suffix_refl _
  · exact List.drop_suffix _ _

theorem lastN_cons {α : Type} (n : Nat) (x : α) (xs : List α) :
    lastN n (x :: xs) = if n = 0 ∨ xs.length < n then x :: xs else lastN n xs := by
  unfold lastN
  by_cases hn : n = 0
  · simp [hn]
  · by_cases hlen : xs.length < n
    · have hzero : xs.length + 1 - n = 0 := by omega
      simp [hn, hlen, hzero]
    · have hsucc : xs.length + 1 - n = xs.length - n + 1 := by omega
      simp [hn, hlen, hsucc]

theorem lastN_map {α β : Type} (n : Nat) (f : α → β) (xs : List α) :
    lastN n (xs.map f) = (lastN n xs).map f := by
  unfold lastN
  split
  · rfl
  · rw [List.map_drop, List.length_map]

/-- What was cut off before is cut off again. -/
theorem lastN_lastN_append {α : Type} (n : Nat) (xs ys : List α) :
    lastN n (lastN n xs ++ ys) = lastN n (xs ++ ys) := by
  induction xs with
  | nil => simp [lastN]
  | cons x xs ih =>
    rw [lastN_cons]
    split
    · rfl
    · next hlong =>
      have hlonger : ¬ (n = 0 ∨ (xs ++ ys).length < n) := by
        rw [List.length_append]
        omega
      rw [ih, List.cons_append, lastN_cons, if_neg hlonger]

/-- `sorted(msgs, key=lambda m: m.id)` -/
def sortById (msgs : List Msg) : List Msg := msgs.insertionSort fun a b => a.id ≤ b.id

theorem sortById_perm (msgs : List Msg) : (sortById msgs).Perm msgs :=
  List.perm_insertionSort _ msgs

@[simp] theorem mem_sortById {msgs : List Msg} {m : Msg} : m ∈ sortById msgs ↔ m ∈ msgs :=
  (sortById_perm msgs).mem_iff

theorem sortById_sorted (msgs : List Msg) :
    (sortById msgs).Pairwise fun a b => a.id ≤ b.id := by
  have : IsTrans Msg fun a b => a.id ≤ b.id := ⟨fun _ _ _ => Nat.le_trans⟩
  have : Std.Total fun a b : Msg => a.id ≤ b.id := ⟨fun a b => Nat.le_total a.id b.id⟩
  exact List.pairwise_insertionSort _ msgs

/-! ## Token bucket -/

/-- `TokenBucket` -/
structure TokenBucket where
  capacity : Rat
  refillPerSecond : Rat
  tokens : Rat
  last : Rat
  deriving DecidableEq

def TokenBucket.new (capacity : Nat) (refillPerSecond now : Rat) : TokenBucket :=
  ⟨capacity, refillPerSecond, capacity, now⟩

/-- `_refill` -/
def TokenBucket.refill (b : TokenBucket) (now : Rat) : TokenBucket :=
  let elapsed := now - b.last
  if elapsed > 0 then
    { b with tokens := min b.capacity (b.tokens + elapsed * b.refillPerSecond), last := now }
  else b

/-- `take` -/
def TokenBucket.take (b : TokenBucket) (now : Rat) : Bool × TokenBucket :=
  let b := b.refill now
  if b.tokens ≥ 1 then (true, { b with tokens := b.tokens - 1 }) else (false, b)

/-- `retry_after` -/
def TokenBucket.retryAfter (b : TokenBucket) (now : Rat) : Rat × TokenBucket :=
  let b := b.refill now
  let missing := 1 - b.tokens
  if missing ≤ 0 then (0, b) else (missing / b.refillPerSecond, b)

/-! ## Context buffer -/

/-- `ContextBuffer` -/
structure ContextBuffer where
  cap : Nat
  items : List Msg := []
  evicted : Nat := 0
  cap_pos : 0 < cap
  bounded : items.length ≤ cap

/-- The loop of `append` that makes room. -/
def makeRoom (cap : Nat) : List Msg → Nat → List Msg × Nat
  | [], evicted => ([], evicted)
  | m :: ms, evicted =>
    if cap ≤ (m :: ms).length then makeRoom cap ms (evicted + 1) else (m :: ms, evicted)

theorem makeRoom_length {cap : Nat} (h : 0 < cap) (ms : List Msg) (evicted : Nat) :
    (makeRoom cap ms evicted).1.length < cap := by
  induction ms generalizing evicted with
  | nil => exact h
  | cons m ms ih =>
    simp only [makeRoom]
    split
    · exact ih _
    · next hlt => exact Nat.lt_of_not_le hlt

/-- A bounded buffer loses its oldest message when it is full, and nothing else. -/
theorem makeRoom_bounded {cap : Nat} {ms : List Msg} (hms : ms.length ≤ cap) (evicted : Nat) :
    makeRoom cap ms evicted =
      (ms.drop (ms.length + 1 - cap), evicted + min ms.length (ms.length + 1 - cap)) := by
  cases ms with
  | nil =>
    simp [makeRoom]
  | cons m ms =>
    simp only [List.length_cons] at hms
    simp only [makeRoom, List.length_cons]
    split
    · next hle =>
      have heq : cap = ms.length + 1 := by omega
      have hdrop : ms.length + 1 + 1 - cap = 1 := by omega
      rw [hdrop, List.drop_one, List.tail_cons]
      cases ms with
      | nil => simp [makeRoom]
      | cons m' ms =>
        have hlt : ¬ cap ≤ (m' :: ms).length := by simp only [List.length_cons] at heq ⊢; omega
        rw [makeRoom, if_neg hlt]
        simp
    · next hlt =>
      have hdrop : ms.length + 1 + 1 - cap = 0 := by omega
      rw [hdrop]
      simp

/-- `append` -/
def ContextBuffer.append (b : ContextBuffer) (m : Msg) : ContextBuffer where
  cap := b.cap
  items := (makeRoom b.cap b.items b.evicted).1 ++ [m]
  evicted := (makeRoom b.cap b.items b.evicted).2
  cap_pos := b.cap_pos
  bounded := by
    have := makeRoom_length b.cap_pos b.items b.evicted
    rw [List.length_append, List.length_singleton]
    omega

def systemSender : Str := str "system"

/-- The line that stands for `n` evicted messages. -/
def omittedNote (n : Nat) : Msg where
  id := 0
  sender := systemSender
  addressee := str "*"
  kind := str "note"
  text := natStr n ++ str " older messages omitted"
  ts := 0
  addressing := some .overheard

/-- `_placeholder` -/
def ContextBuffer.placeholder (b : ContextBuffer) : Msg := omittedNote b.evicted

/-- The note about `n` messages dropped from the queue of `owner`. -/
def droppedNote (owner : Str) (n : Nat) : Msg where
  id := 0
  sender := systemSender
  addressee := owner
  kind := str "note"
  text := natStr n ++ str " addressed messages dropped while you were busy"
  ts := 0
  addressing := some .direct

/-- The message may be drained. -/
def within (upto : Option Nat) (m : Msg) : Bool :=
  match upto with
  | none => true
  | some id => m.id ≤ id

/-- `drain` -/
def ContextBuffer.drain (b : ContextBuffer) (upto : Option Nat) : List Msg × ContextBuffer :=
  let out := if b.evicted = 0 then [] else [b.placeholder]
  (out ++ b.items.takeWhile (within upto),
    { cap := b.cap
      items := b.items.dropWhile (within upto)
      evicted := 0
      cap_pos := b.cap_pos
      bounded := Nat.le_trans (List.dropWhile_sublist _).length_le b.bounded })

/-- The messages `append` evicts: the oldest one of a full buffer. -/
def ContextBuffer.overflow (b : ContextBuffer) : List Msg :=
  b.items.take (b.items.length + 1 - b.cap)

theorem ContextBuffer.append_items (b : ContextBuffer) (m : Msg) :
    b.overflow ++ (b.append m).items = b.items ++ [m] := by
  simp only [ContextBuffer.append, makeRoom_bounded b.bounded, ContextBuffer.overflow]
  rw [← List.append_assoc, List.take_append_drop]

theorem ContextBuffer.append_evicted (b : ContextBuffer) (m : Msg) :
    (b.append m).evicted = b.evicted + b.overflow.length := by
  simp only [ContextBuffer.append, makeRoom_bounded b.bounded, ContextBuffer.overflow,
    List.length_take]
  omega

@[simp] theorem ContextBuffer.drain_evicted (b : ContextBuffer) (upto : Option Nat) :
    (b.drain upto).2.evicted = 0 := rfl

/-- A drain takes a prefix of the buffer, behind the placeholder. -/
theorem ContextBuffer.drain_eq (b : ContextBuffer) (upto : Option Nat) :
    ∃ out, (b.drain upto).1 = (if b.evicted = 0 then [] else [b.placeholder]) ++ out ∧
      out ++ (b.drain upto).2.items = b.items ∧ ∀ m ∈ out, within upto m = true :=
  ⟨b.items.takeWhile (within upto), rfl, List.takeWhile_append_dropWhile,
    fun _ hm => List.all_eq_true.mp List.all_takeWhile _ hm⟩

/-! ## Dedup window -/

/-- `DedupWindow`: the keys seen and when. -/
structure DedupWindow where
  window : Rat
  seen : Dict Str Rat

def DedupWindow.new (window : Rat) : DedupWindow := ⟨window, Dict.empty⟩

/-- The text that `_key` encodes and hashes. -/
def dedupText (addressee text : Str) (priv : Bool) : Str :=
  addressee ++ str "\n" ++ str (if priv then "1" else "0") ++ str "\n" ++ text

/-- `_expire` -/
def DedupWindow.expire (d : DedupWindow) (now : Rat) : DedupWindow :=
  { d with seen := d.seen.filter fun ts => ts ≥ now - d.window }

/-- `seen`, given the key. -/
def DedupWindow.see (d : DedupWindow) (now : Rat) (key : Str) : Bool × DedupWindow :=
  let d := d.expire now
  if d.seen.contains key then (true, d)
  else (false, { d with seen := d.seen.insert key now })

end Moot
