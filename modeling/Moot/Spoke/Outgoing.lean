import Moot.Lib.Strip
import Moot.Proto

/-!
# What a typed line says

`parse_outgoing` of `spoke/observer.py`: the prefixes `@name`, `!kind` and
`!private` are read from the front of a line, in any order, each at most once.  A
name and a kind end at a space, and so does `!private`, while the white space after
a prefix may begin with a tab or a newline.

Proved here: `typed_say`, which lines with prefixes are read as they were typed, and
`tab_publishes`, a whisper that becomes a public say.
-/

namespace Moot.Spoke
open Py Proto

/-- A frame of a typed line. -/
inductive Typed
  | say (addressee kind text : Str) (seq : Int) (priv : Bool)
  | state (state : Str) (detail : Option Str)
  deriving DecidableEq

/-- `STATES` -/
def states : List Str := [str "idle", str "busy", str "blocked"]

def space : CodePoint := .scalar ' '

/-! ## The prefix loop -/

/-- The variables of the prefix loop. -/
structure Reading where
  text : Str
  addressee : Str := str "*"
  kind : Str := str "note"
  priv : Bool := false
  seenKind : Bool := false
  seenTo : Bool := false
  seenPrivate : Bool := false

/-- One round of the loop; `none` is the `break`. -/
def Reading.next (r : Reading) : Option Reading :=
  if (r.text = str "!private" ∨ (str "!private ").isPrefixOf r.text = true) ∧
      r.seenPrivate = false then
    some { r with text := lstrip (r.text.drop 8), priv := true, seenPrivate := true }
  else if (str "!").isPrefixOf r.text = true ∧ r.seenKind = false then
    let parts := partition space (r.text.drop 1)
    some { r with
      text := lstrip parts.2
      kind := if parts.1 ∈ sayKinds then parts.1 else r.kind
      seenKind := true }
  else if (str "@").isPrefixOf r.text = true ∧ r.seenTo = false then
    let parts := partition space (r.text.drop 1)
    some { r with text := lstrip parts.2, addressee := parts.1, seenTo := true }
  else none

/-- The loop, for a number of rounds. -/
def Reading.read : Nat → Reading → Reading
  | 0, r => r
  | n + 1, r =>
    match r.next with
    | none => r
    | some r' => r'.read n

/-- `parse_outgoing`.  The loop sets one of three flags in each round. -/
def parseOutgoing (line : Str) (seq : Int) : Option Typed :=
  let text := strip line
  if (str "!state").isPrefixOf text = true then
    let parts := partition space (strip (text.drop 6))
    if parts.1 ∈ states then
      some (.state parts.1 (if parts.2 = [] then none else some (strip parts.2)))
    else none
  else
    let r := ({ text := text } : Reading).read 3
    some (.say r.addressee r.kind (strip r.text) seq r.priv)

/-! ## What the loop does -/

/-- The loop ends at `q`. -/
inductive Ends : Reading → Reading → Prop
  | stop {r : Reading} (h : r.next = none) : Ends r r
  | step {r r' q : Reading} (h : r.next = some r') (hq : Ends r' q) : Ends r q

/-- The flags that are not set. -/
def Reading.unseen (r : Reading) : Nat :=
  (if r.seenKind then 0 else 1) + (if r.seenTo then 0 else 1) + (if r.seenPrivate then 0 else 1)

theorem Reading.unseen_next {r r' : Reading} (h : r.next = some r') : r'.unseen < r.unseen := by
  unfold Reading.next at h
  split at h
  · next hg =>
    rw [← Option.some.inj h]
    simp [Reading.unseen, hg.2]
  · split at h
    · next hg =>
      rw [← Option.some.inj h]
      simp only [Reading.unseen, hg.2, Bool.false_eq_true, if_false, if_true]
      omega
    · split at h
      · next hg =>
        rw [← Option.some.inj h]
        simp only [Reading.unseen, hg.2, Bool.false_eq_true, if_false, if_true]
        omega
      · cases h

/-- The loop has ended after as many rounds as flags were not set. -/
theorem Reading.read_ends (n : Nat) (r : Reading) (h : r.unseen ≤ n) : Ends r (r.read n) := by
  induction n generalizing r with
  | zero =>
    refine .stop ?_
    cases hnext : r.next with
    | none => rfl
    | some r' =>
      have := Reading.unseen_next hnext
      omega
  | succ n ih =>
    unfold Reading.read
    cases hnext : r.next with
    | none => exact .stop hnext
    | some r' =>
      have := Reading.unseen_next hnext
      exact .step hnext (ih r' (by omega))

/-- No `!p` in the string. -/
def NoWhisper (s : Str) : Prop :=
  s.IsChain fun a b => ¬ (a = .scalar '!' ∧ b = .scalar 'p')

/-- What the loop takes off the text, and what it can set by that. -/
theorem Ends.consumed {r q : Reading} (h : Ends r q) : ∃ pre, r.text = pre ++ q.text ∧
    (r.seenTo = true → q.addressee = r.addressee) ∧ (r.seenKind = true → q.kind = r.kind) ∧
    (r.seenPrivate = true → q.priv = r.priv) ∧
    (.scalar '@' ∉ pre → q.addressee = r.addressee) ∧ (NoWhisper pre → q.priv = r.priv) := by
  induction h with
  | stop => exact ⟨[], rfl, fun _ => rfl, fun _ => rfl, fun _ => rfl, fun _ => rfl, fun _ => rfl⟩
  | @step r r' q hnext _ ih =>
    obtain ⟨pre, htext, hto, hkind, hpriv, hat, hbang⟩ := ih
    unfold Reading.next at hnext
    split at hnext
    · next hg =>
      obtain rfl := Option.some.inj hnext
      simp only at htext hto hkind hpriv hat hbang
      -- the token and the white space after it
      have hhead : str "!private" <+: r.text := by
        rcases hg.1 with heq | hpre
        · rw [heq]
        · exact (show str "!private" <+: str "!private " by decide).trans
            (List.isPrefixOf_iff_prefix.mp hpre)
      obtain ⟨rest, hrest⟩ := hhead
      have hdrop : r.text.drop 8 = rest := by
        rw [← hrest]
        rfl
      rw [hdrop] at htext
      have hsplit : r.text = (str "!private" ++ (lead rest ++ pre)) ++ q.text := by
        rw [← hrest, List.append_assoc, List.append_assoc, ← htext, lead_append_lstrip]
      refine ⟨_, hsplit, hto, hkind, fun hseen => ?_, fun hno => hat fun hmem => hno ?_,
        fun hchain => ?_⟩
      · rw [hg.2] at hseen
        cases hseen
      · exact List.mem_append_right _ (List.mem_append_right _ hmem)
      · have hfirst := hchain.left_of_append
        exact absurd hfirst (by decide)
    · split at hnext
      · next hg =>
        obtain rfl := Option.some.inj hnext
        simp only at htext hto hkind hpriv hat hbang
        obtain ⟨pre', hpre'⟩ : (lstrip (partition space (r.text.drop 1)).2) <:+ r.text :=
          (lstrip_suffix _).trans ((partition_suffix _ _).trans (List.drop_suffix _ _))
        refine ⟨pre' ++ pre, by rw [List.append_assoc, ← htext, hpre'], hto, fun hseen => ?_, hpriv,
          fun hno => hat fun hmem => hno (List.mem_append_right _ hmem),
          fun hchain => hbang hchain.right_of_append⟩
        rw [hg.2] at hseen
        cases hseen
      · split at hnext
        · next hg =>
          obtain rfl := Option.some.inj hnext
          simp only at htext hto hkind hpriv hat hbang
          obtain ⟨rest, hrest⟩ := List.isPrefixOf_iff_prefix.mp hg.1
          obtain ⟨pre', hpre'⟩ : (lstrip (partition space (r.text.drop 1)).2) <:+ rest := by
            rw [← hrest]
            exact (lstrip_suffix _).trans (partition_suffix _ _)
          refine ⟨str "@" ++ (pre' ++ pre), by
            rw [List.append_assoc, List.append_assoc, ← htext, hpre', hrest], fun hseen => ?_, hkind,
            hpriv, fun hno => absurd ?_ hno,
            fun hchain => hbang hchain.right_of_append.right_of_append⟩
          · rw [hg.2] at hseen
            cases hseen
          · exact List.mem_append_left _ (by decide)
        · cases hnext

/-! ## Typed lines -/

/-- A prefix. -/
inductive Token
  | name (n : Str)
  | kind (k : Str)
  | whisper
  deriving DecidableEq

def Token.text : Token → Str
  | .name n => .scalar '@' :: n
  | .kind k => .scalar '!' :: k
  | .whisper => str "!private"

def Token.name? : Token → Option Str
  | .name n => some n
  | _ => none

def Token.kind? : Token → Option Str
  | .kind k => some k
  | _ => none

/-- Which of the three forms the prefix has. -/
def Token.form : Token → Nat
  | .name _ => 0
  | .kind _ => 1
  | .whisper => 2

/-- The prefixes of a line, each with the white space typed after it. -/
abbrev Prefixes := List (Token × Str)

/-- The line. -/
def typed : Prefixes → Str → Str
  | [], body => body
  | (t, w) :: ps, body => t.text ++ (w ++ typed ps body)

def nameIn (ps : Prefixes) : Option Str := ps.findSome? (·.1.name?)

def kindIn (ps : Prefixes) : Option Str := ps.findSome? (·.1.kind?)

def whisperIn (ps : Prefixes) : Bool := ps.any (·.1 = .whisper)

/-- What can be typed: each form of prefix at most once, names and kinds of the protocol, white space
after each prefix, and a body that is not taken for a prefix. -/
structure Typeable (ps : Prefixes) (body : Str) : Prop where
  once : (ps.map (·.1.form)).Nodup
  names : ∀ n w, (.name n, w) ∈ ps → nameRe n = true
  kinds : ∀ k w, (.kind k, w) ∈ ps → k ∈ sayKinds
  white : ∀ p ∈ ps, p.2 ≠ [] ∧ ∀ c ∈ p.2, c ∈ str " \t\n"
  body_ne : strip body ≠ []
  body_at : (strip body).head? ≠ some (.scalar '@')
  body_bang : (strip body).head? ≠ some (.scalar '!')

/-- The white space after each prefix begins with a space; after `!note` it is enough that it holds
one. -/
def Spaced : Prefixes → Str → Prop
  | [], _ => True
  | (t, w) :: ps, body =>
    (w.head? = some space ∨
      t = .kind (str "note") ∧ space ∈ w ++ (if ps = [] then lead body else [])) ∧ Spaced ps body

instance Spaced.dec : ∀ (ps : Prefixes) (body : Str), Decidable (Spaced ps body)
  | [], _ => isTrue trivial
  | (_, _) :: ps, body =>
    have := Spaced.dec ps body
    inferInstanceAs (Decidable (_ ∧ _))

/-! ## One prefix -/

section
variable {r : Reading} {s : Str}

theorem next_name (ht : r.text = .scalar '@' :: s) (hseen : r.seenTo = false) :
    r.next = some { r with
      text := lstrip (partition space s).2, addressee := (partition space s).1, seenTo := true } := by
  unfold Reading.next
  rw [ht, if_neg (by simp [str, ofChars]), if_neg (by simp [str, ofChars]),
    if_pos ⟨by simp [str, ofChars], hseen⟩]
  rfl

theorem next_kind (ht : r.text = .scalar '!' :: s) (hp : s.head? ≠ some (.scalar 'p'))
    (hseen : r.seenKind = false) :
    r.next = some { r with
      text := lstrip (partition space s).2
      kind := if (partition space s).1 ∈ sayKinds then (partition space s).1 else r.kind
      seenKind := true } := by
  have hno : ¬ (r.text = str "!private" ∨ (str "!private ").isPrefixOf r.text = true) := by
    rw [ht]
    cases s with
    | nil => simp [str, ofChars]
    | cons p s =>
      have hne : p ≠ .scalar 'p' := by simpa using hp
      simp [str, ofChars, hne, Ne.symm hne]
  unfold Reading.next
  rw [if_neg fun hc => hno hc.1, ht, if_pos ⟨by simp [str, ofChars], hseen⟩]
  rfl

theorem next_whisper (ht : r.text = str "!private" ++ space :: s) (hseen : r.seenPrivate = false) :
    r.next = some { r with text := lstrip (space :: s), priv := true, seenPrivate := true } := by
  unfold Reading.next
  rw [ht, if_pos ⟨Or.inr (by simp [str, ofChars, space]), hseen⟩]
  rfl

/-- A `!private` that no space follows is taken for a kind, or ends the loop. -/
theorem next_murmur {c : CodePoint} (ht : r.text = str "!private" ++ c :: s) (hc : c ≠ space) :
    r.next = if r.seenKind then none else some { r with
      text := lstrip (partition space (str "private" ++ c :: s)).2
      kind := if (partition space (str "private" ++ c :: s)).1 ∈ sayKinds then
        (partition space (str "private" ++ c :: s)).1 else r.kind
      seenKind := true } := by
  have hno : ¬ (r.text = str "!private" ∨ (str "!private ").isPrefixOf r.text = true) := by
    rw [ht]
    have hne : CodePoint.scalar ' ' ≠ c := fun heq => hc heq.symm
    simp [str, ofChars, hne]
  unfold Reading.next
  rw [if_neg fun hc => hno hc.1, ht]
  cases hseen : r.seenKind with
  | true =>
    rw [if_neg (by simp), if_neg (by simp [str, ofChars])]
    rfl
  | false =>
    rw [if_pos ⟨by simp [str, ofChars], rfl⟩]
    rfl

theorem next_body (hat : r.text.head? ≠ some (.scalar '@')) (hbang : r.text.head? ≠ some (.scalar '!')) :
    r.next = none := by
  unfold Reading.next
  cases ht : r.text with
  | nil => simp [str, ofChars]
  | cons p s =>
    rw [ht, List.head?_cons, ne_eq, Option.some.injEq] at hat hbang
    simp [str, ofChars, Ne.symm hat, Ne.symm hbang, hbang]

end

theorem Ends.inv_none {r q : Reading} (h : Ends r q) (hnone : r.next = none) : q = r := by
  cases h with
  | stop => rfl
  | step h => rw [hnone] at h; cases h

theorem Ends.inv_some {r r' q : Reading} (h : Ends r q) (hsome : r.next = some r') : Ends r' q := by
  cases h with
  | stop h => rw [hsome] at h; cases h
  | step h hq =>
    rw [hsome] at h
    obtain rfl := Option.some.inj h
    exact hq

/-- The text is stripped at its front before each round. -/
theorem Ends.stripped {r q : Reading} (h : Ends r q) (hr : lstrip r.text = r.text) :
    lstrip q.text = q.text := by
  induction h with
  | stop => exact hr
  | step hnext _ ih =>
    apply ih
    unfold Reading.next at hnext
    split at hnext
    · rw [← Option.some.inj hnext]
      exact lstrip_lstrip _
    · split at hnext
      · rw [← Option.some.inj hnext]
        exact lstrip_lstrip _
      · split at hnext
        · rw [← Option.some.inj hnext]
          exact lstrip_lstrip _
        · cases hnext

/-- Where the loop ends at `b`, what it took off cannot hold what it did not set. -/
theorem Ends.lost {r q : Reading} (h : Ends r q) {z b : Str} (hr : r.text <:+ z ++ b)
    (hq : q.text = b) :
    (.scalar '@' ∉ z → q.addressee = r.addressee) ∧ (NoWhisper z → q.priv = r.priv) := by
  obtain ⟨pre, htext, -, -, -, hat, hbang⟩ := h.consumed
  have hpre : pre <:+ z := by
    rw [htext, hq] at hr
    obtain ⟨u, hu⟩ := hr
    rw [← List.append_assoc] at hu
    exact ⟨u, List.append_cancel_right hu⟩
  exact ⟨fun hno => hat fun hmem => hno (hpre.subset hmem),
    fun hchain => hbang (List.IsChain.suffix hchain hpre)⟩

/-! ## The characters of a typed line -/

theorem isSpace_white : ∀ c ∈ str " \t\n", isSpace c = true := by decide

theorem nameChar_of_name {n : Str} (hn : isProtocolName n = true) : ∀ c ∈ n, isNameChar c = true := by
  intro c hc
  cases n with
  | nil => cases hc
  | cons p s =>
    simp only [isProtocolName, Bool.and_eq_true] at hn
    rcases List.mem_cons.mp hc with rfl | hc
    · simp [isNameChar, hn.1.1]
    · exact List.all_eq_true.mp hn.1.2 c hc

theorem not_mem_name {n : Str} (hn : nameRe n = true) {c : CodePoint}
    (hc : isNameChar c = false) (hline : c ≠ .scalar '\n') : c ∉ n := fun hmem => by
  have hchar : isNameChar c = true := by
    rw [nameRe, Bool.or_eq_true, Bool.and_eq_true] at hn
    rcases hn with hn | ⟨hlast, hn⟩
    · exact nameChar_of_name hn c hmem
    · have hsplit := List.dropLast_append_getLast? _ (of_decide_eq_true hlast)
      rw [← hsplit] at hmem
      rcases List.mem_append.mp hmem with hmem | hmem
      · exact nameChar_of_name hn c hmem
      · exact absurd (List.mem_singleton.mp hmem) hline
  rw [hchar] at hc
  cases hc

/-- A word with white space in it is no kind. -/
theorem not_kind {word : Str} {c : CodePoint} (hc : c ∈ word) (hs : isSpace c = true) :
    word ∉ sayKinds := by
  have hall : ∀ k ∈ sayKinds, ∀ c ∈ k, isSpace c = false := by decide
  intro hmem
  rw [hall word hmem c hc] at hs
  cases hs

theorem NoWhisper.append {s t : Str} (hs : NoWhisper s) (ht : NoWhisper t)
    (hlast : s.getLast? ≠ some (.scalar '!')) : NoWhisper (s ++ t) := by
  refine List.isChain_append.mpr ⟨hs, ht, fun x hx y _ hbad => hlast ?_⟩
  rw [hbad.1] at hx
  exact hx

theorem noWhisper_of_not_mem {s : Str} (hs : .scalar '!' ∉ s) : NoWhisper s := by
  induction s with
  | nil => exact .nil
  | cons c s ih =>
    rw [List.mem_cons, not_or] at hs
    refine List.isChain_cons.mpr ⟨fun y _ hbad => hs.1 hbad.1.symm, ih hs.2⟩

theorem white_not_mem {w : Str} (hw : ∀ c ∈ w, isSpace c = true) {c : CodePoint}
    (hc : isSpace c = false) : c ∉ w := fun hmem => by
  rw [hw c hmem] at hc
  cases hc

theorem typed_append (ps : Prefixes) (s body : Str) :
    typed ps (s ++ body) = typed ps s ++ body := by
  induction ps with
  | nil => rfl
  | cons p ps ih =>
    obtain ⟨t, w⟩ := p
    simp only [typed]
    rw [ih, List.append_assoc, List.append_assoc]

section
variable {t : Token} {w : Str} {ps : Prefixes} {body : Str}

theorem Typeable.tail (h : Typeable ((t, w) :: ps) body) : Typeable ps body where
  once := (List.nodup_cons.mp h.once).2
  names n w' hm := h.names n w' (List.mem_cons_of_mem _ hm)
  kinds k w' hm := h.kinds k w' (List.mem_cons_of_mem _ hm)
  white p hm := h.white p (List.mem_cons_of_mem _ hm)
  body_ne := h.body_ne
  body_at := h.body_at
  body_bang := h.body_bang

theorem Typeable.space (h : Typeable ((t, w) :: ps) body) : ∀ c ∈ w, isSpace c = true :=
  fun c hc => isSpace_white c ((h.white (t, w) (List.mem_cons_self ..)).2 c hc)

/-- A form of prefix is there once. -/
theorem Typeable.form (h : Typeable ((t, w) :: ps) body) {p : Token × Str} (hp : p ∈ ps) :
    p.1.form ≠ t.form := fun heq =>
  (List.nodup_cons.mp h.once).1 (List.mem_map.mpr ⟨p, hp, heq⟩)

theorem Typeable.nameIn_tail {n : Str} (h : Typeable ((.name n, w) :: ps) body) :
    nameIn ps = none := by
  refine List.findSome?_eq_none_iff.mpr fun p hp => ?_
  have hform := h.form hp
  cases hc : p.1 with
  | name m =>
    rw [hc] at hform
    exact absurd rfl hform
  | _ => rfl

theorem Typeable.kindIn_tail {k : Str} (h : Typeable ((.kind k, w) :: ps) body) :
    kindIn ps = none := by
  refine List.findSome?_eq_none_iff.mpr fun p hp => ?_
  have hform := h.form hp
  cases hc : p.1 with
  | kind m =>
    rw [hc] at hform
    exact absurd rfl hform
  | _ => rfl

theorem Typeable.whisperIn_tail (h : Typeable ((.whisper, w) :: ps) body) :
    whisperIn ps = false := by
  rw [Bool.eq_false_iff]
  intro hany
  obtain ⟨p, hp, hc⟩ := List.any_eq_true.mp hany
  rw [decide_eq_true_eq] at hc
  exact h.form hp (by rw [hc])

/-- A line without a name in front has no `@` before its body. -/
theorem no_at (h : Typeable ps body) (hname : nameIn ps = none) {s : Str}
    (hs : CodePoint.scalar '@' ∉ s) : CodePoint.scalar '@' ∉ typed ps s := by
  induction ps with
  | nil => exact hs
  | cons p ps ih =>
    obtain ⟨t, w⟩ := p
    rw [nameIn, List.findSome?_cons] at hname
    have hw : CodePoint.scalar '@' ∉ w := white_not_mem h.space (by decide)
    have ht : CodePoint.scalar '@' ∉ t.text := by
      cases t with
      | name n => cases hname
      | kind k =>
        have hall : ∀ k ∈ sayKinds, CodePoint.scalar '@' ∉ CodePoint.scalar '!' :: k := by decide
        exact hall k (h.kinds k w (List.mem_cons_self ..))
      | whisper => decide
    have hrest : CodePoint.scalar '@' ∉ typed ps s := by
      refine ih h.tail ?_
      cases t with
      | name n => cases hname
      | _ => exact hname
    simp only [typed, List.mem_append, not_or]
    exact ⟨ht, hw, hrest⟩

/-- A line without `!private` in front has none before its body. -/
theorem no_whisper (h : Typeable ps body) (hpriv : whisperIn ps = false) {s : Str}
    (hs : CodePoint.scalar '!' ∉ s) : NoWhisper (typed ps s) := by
  induction ps with
  | nil => exact noWhisper_of_not_mem hs
  | cons p ps ih =>
    obtain ⟨t, w⟩ := p
    rw [whisperIn, List.any_cons, Bool.or_eq_false_iff] at hpriv
    have hwhite : CodePoint.scalar '!' ∉ w := white_not_mem h.space (by decide)
    have ht : NoWhisper t.text ∧ t.text.getLast? ≠ some (.scalar '!') := by
      cases t with
      | name n =>
        have hn := h.names n w (List.mem_cons_self ..)
        have hbang : CodePoint.scalar '!' ∉ CodePoint.scalar '@' :: n := by
          rw [List.mem_cons, not_or]
          exact ⟨by decide, not_mem_name hn (by decide) (by decide)⟩
        exact ⟨noWhisper_of_not_mem hbang, fun hlast => hbang (List.mem_of_getLast? hlast)⟩
      | kind k =>
        have hall : ∀ k ∈ sayKinds, NoWhisper (CodePoint.scalar '!' :: k) ∧
            (CodePoint.scalar '!' :: k).getLast? ≠ some (.scalar '!') := by
          unfold NoWhisper
          decide
        exact hall k (h.kinds k w (List.mem_cons_self ..))
      | whisper => simp at hpriv
    have hw : w.getLast? ≠ some (.scalar '!') := fun hlast => hwhite (List.mem_of_getLast? hlast)
    exact ht.1.append ((noWhisper_of_not_mem hwhite).append (ih h.tail hpriv.2) hw) ht.2

/-- A line with prefixes begins with one. -/
theorem lstrip_typed (t : Token) (w : Str) (ps : Prefixes) (body : Str) :
    lstrip (typed ((t, w) :: ps) body) = typed ((t, w) :: ps) body := by
  cases t with
  | name n => exact lstrip_cons (by decide) _
  | kind k => exact lstrip_cons (by decide) _
  | whisper => exact lstrip_cons (p := .scalar '!') (by decide) _

end

/-! ## The loop on a typed line -/

/-- What a line is to be read as, from the reading at its first prefix. -/
structure AsTyped (ps : Prefixes) (b : Str) (r q : Reading) : Prop where
  name : q.addressee = (nameIn ps).getD r.addressee
  kind : q.kind = (kindIn ps).getD r.kind
  whisper : q.priv = (whisperIn ps || r.priv)
  text : q.text = b

/-- The prefixes that are still to come have not been seen. -/
structure Fresh (ps : Prefixes) (r : Reading) : Prop where
  name : nameIn ps ≠ none → r.seenTo = false ∧ r.addressee = str "*"
  kind : kindIn ps ≠ none → r.seenKind = false ∧ r.kind = str "note"
  whisper : whisperIn ps = true → r.seenPrivate = false ∧ r.priv = false

/-- The white space up to the first space goes with the word before it. -/
theorem partition_white {z : Str} (hz : space ∈ z) (hwhite : ∀ c ∈ z, isSpace c = true) (s : Str) :
    lstrip (partition space (z ++ s)).2 = lstrip s := by
  induction z with
  | nil => cases hz
  | cons c z ih =>
    by_cases hc : c = space
    · rw [hc, List.cons_append, partition_cons_self]
      exact lstrip_append (fun p hp => hwhite p (List.mem_cons_of_mem _ hp)) s
    · have hrest : space ∈ z := (List.mem_cons.mp hz).resolve_left fun heq => hc heq.symm
      have hone : space ∉ [c] := fun hmem => hc (List.mem_singleton.mp hmem).symm
      rw [← List.singleton_append, List.append_assoc, partition_append hone]
      exact ih hrest fun p hp => hwhite p (List.mem_cons_of_mem _ hp)

/-- A word that ends in white space other than a space goes on. -/
theorem partition_word {word : Str} (hword : space ∉ word) {c : CodePoint} (hc : c ≠ space)
    (s : Str) : c ∈ (partition space (word ++ c :: s)).1 ∧
      (partition space (word ++ c :: s)).1 ≠ word := by
  have hone : space ∉ word ++ [c] := by
    rw [List.mem_append, not_or]
    exact ⟨hword, fun hmem => hc (List.mem_singleton.mp hmem).symm⟩
  rw [← List.singleton_append, ← List.append_assoc, partition_append hone]
  refine ⟨by simp, fun heq => ?_⟩
  have hlen := congrArg List.length heq
  simp at hlen

/-- The loop reads the line as it was typed exactly where it is spaced. -/
def Reads (ps : Prefixes) (body : Str) : Prop :=
  ∀ r q : Reading, Ends r q → r.text = lstrip (typed ps body) → Fresh ps r →
    (AsTyped ps (lstrip body) r q ↔ Spaced ps body)

section
variable {w : Str} {ps : Prefixes} {body : Str}

theorem reads_nil (h : Typeable [] body) (hbody : rstrip body = body) : Reads [] body := by
  intro r q hends htext _
  have hstrip : strip body = lstrip body := by rw [strip, hbody]
  have hnone : r.next = none := by
    apply next_body
    · rw [htext, typed, ← hstrip]
      exact h.body_at
    · rw [htext, typed, ← hstrip]
      exact h.body_bang
  obtain rfl := hends.inv_none hnone
  exact ⟨fun _ => trivial, fun _ => ⟨rfl, rfl, rfl, htext⟩⟩

/-- The white space after a prefix is its first character and the rest. -/
theorem Typeable.first {t : Token} (h : Typeable ((t, w) :: ps) body) :
    ∃ c w', w = c :: w' ∧ isSpace c = true ∧ ∀ p ∈ w', isSpace p = true := by
  cases w with
  | nil => exact absurd rfl (h.white _ (List.mem_cons_self ..)).1
  | cons c w' => exact ⟨c, w', rfl, h.space c (List.mem_cons_self ..),
      fun p hp => h.space p (List.mem_cons_of_mem _ hp)⟩

theorem reads_name {n : Str} (h : Typeable ((.name n, w) :: ps) body) (ih : Reads ps body) :
    Reads ((.name n, w) :: ps) body := by
  intro r q hends htext hfresh
  obtain ⟨c, w', rfl, hc, hw'⟩ := h.first
  obtain ⟨hseen, -⟩ := hfresh.name (by simp [nameIn, Token.name?])
  have hn : space ∉ n := not_mem_name (h.names n _ (List.mem_cons_self ..)) (by decide) (by decide)
  rw [lstrip_typed] at htext
  have hq := hends.inv_some (next_name (s := n ++ (c :: w' ++ typed ps body)) htext hseen)
  by_cases hsp : c = space
  · subst hsp
    rw [partition_append hn, List.cons_append, partition_cons_self, List.append_nil] at hq
    have hread := ih _ q hq (lstrip_append hw' _)
      ⟨fun hsome => absurd h.nameIn_tail hsome, hfresh.kind, hfresh.whisper⟩
    constructor
    · intro hgood
      refine ⟨Or.inl rfl, hread.mp ⟨?_, hgood.kind, hgood.whisper, hgood.text⟩⟩
      rw [h.nameIn_tail]
      exact hgood.name
    · intro hspaced
      have htail := hread.mpr hspaced.2
      refine ⟨?_, htail.kind, htail.whisper, htail.text⟩
      rw [htail.name, h.nameIn_tail]
      rfl
  · constructor
    · intro hgood
      obtain ⟨pre, -, hto, -⟩ := hq.consumed
      have hname : q.addressee = n := hgood.name
      exact absurd ((hto rfl).symm.trans hname) (partition_word hn hsp _).2
    · intro hspaced
      rcases hspaced.1 with hhead | ⟨hnote, -⟩
      · exact absurd (Option.some.inj hhead) hsp
      · cases hnote

/-- Where the loop ends at the body, a `!private` without its `!` has not made the say private. -/
theorem murmur_lost (h : Typeable ((.whisper, w) :: ps) body) {r q : Reading} (hends : Ends r q)
    (hr : r.text <:+ str "private" ++ (w ++ typed ps body)) (hq : q.text = lstrip body) :
    q.priv = r.priv := by
  have hlead : CodePoint.scalar '!' ∉ lead body :=
    white_not_mem (fun _ => isSpace_of_mem_lead) (by decide)
  have hw : CodePoint.scalar '!' ∉ str "private" ++ w := by
    rw [List.mem_append, not_or]
    exact ⟨by decide, white_not_mem h.space (by decide)⟩
  have hz : NoWhisper ((str "private" ++ w) ++ typed ps (lead body)) :=
    (noWhisper_of_not_mem hw).append (no_whisper h.tail h.whisperIn_tail hlead)
      fun hlast => hw (List.mem_of_getLast? hlast)
  refine (hends.lost ?_ hq).2 hz
  rw [List.append_assoc, List.append_assoc, ← typed_append, lead_append_lstrip]
  exact hr

/-- Where the loop ends at the body, a name without its `@` has not been read. -/
theorem name_lost {n : Str} (h : Typeable ((.name n, w) :: ps) body) {r q : Reading}
    (hends : Ends r q) (hr : r.text <:+ n ++ (w ++ typed ps body)) (hq : q.text = lstrip body) :
    q.addressee = r.addressee := by
  have hz : CodePoint.scalar '@' ∉ (n ++ w) ++ typed ps (lead body) := by
    rw [List.mem_append, List.mem_append, not_or, not_or]
    exact ⟨⟨not_mem_name (h.names n w (List.mem_cons_self ..)) (by decide) (by decide),
      white_not_mem h.space (by decide)⟩, no_at h.tail h.nameIn_tail
        (white_not_mem (fun _ => isSpace_of_mem_lead) (by decide))⟩
  refine (hends.lost ?_ hq).1 hz
  rw [List.append_assoc, List.append_assoc, ← typed_append, lead_append_lstrip]
  exact hr

theorem reads_whisper (h : Typeable ((.whisper, w) :: ps) body)
    (ih : Reads ps body) : Reads ((.whisper, w) :: ps) body := by
  intro r q hends htext hfresh
  obtain ⟨c, w', rfl, hc, hw'⟩ := h.first
  obtain ⟨hseen, hpriv⟩ := hfresh.whisper (by simp [whisperIn])
  rw [lstrip_typed] at htext
  by_cases hsp : c = space
  · subst hsp
    have hq := hends.inv_some (next_whisper (s := w' ++ typed ps body) htext hseen)
    have hread := ih _ q hq (lstrip_append (w := space :: w') h.space _)
      ⟨hfresh.name, hfresh.kind, fun hsome => absurd hsome (by simp [h.whisperIn_tail])⟩
    constructor
    · intro hgood
      refine ⟨Or.inl rfl, hread.mp ⟨hgood.name, hgood.kind, ?_, hgood.text⟩⟩
      rw [hgood.whisper]
      simp [whisperIn]
    · intro hspaced
      have htail := hread.mpr hspaced.2
      refine ⟨htail.name, htail.kind, ?_, htail.text⟩
      rw [htail.whisper]
      simp [whisperIn]
  · have hnext := next_murmur (s := w' ++ typed ps body) htext hsp
    constructor
    · intro hgood
      have hloud : q.priv = true := by
        rw [hgood.whisper]
        simp [whisperIn]
      cases hkind : r.seenKind with
      | true =>
        -- the loop ends at the `!private` itself
        rw [hkind, if_pos rfl] at hnext
        obtain rfl := hends.inv_none hnext
        rw [hpriv] at hloud
        cases hloud
      | false =>
        rw [hkind, if_neg Bool.false_ne_true] at hnext
        have hq := hends.inv_some hnext
        have hlost := murmur_lost h hq
          ((lstrip_suffix _).trans (partition_suffix _ _)) hgood.text
        rw [hlost, hpriv] at hloud
        cases hloud
    · intro hspaced
      rcases hspaced.1 with hhead | ⟨hnote, -⟩
      · exact absurd (Option.some.inj hhead) hsp
      · cases hnote

/-- The white space between `!note` and what follows it: without a space in it, the next prefix or a
word of the body goes with the kind. -/
theorem note_lost {z rest : Str} (h : Typeable ps body) (hkind : kindIn ps = none)
    (hz : space ∉ z) (hrest : rest = typed ps (if ps = [] then lstrip body else body))
    {r q : Reading} (hends : Ends r q) (hr : r.text = lstrip (partition space (z ++ rest)).2)
    (hfresh : Fresh ps r) (hbody : rstrip body = body) : ¬ AsTyped ps (lstrip body) r q := by
  intro hgood
  rw [partition_append hz] at hr
  have hsuffix : r.text <:+ (partition space rest).2 := hr ▸ lstrip_suffix _
  cases ps with
  | nil =>
    have hne : lstrip body ≠ [] := by
      rw [← hbody]
      exact h.body_ne
    rw [if_pos rfl, typed] at hrest
    obtain ⟨pre, htext, -⟩ := hends.consumed
    have hlen := hsuffix.length_le
    rw [htext, hgood.text, List.length_append] at hlen
    have hshort := partition_shorter space hne
    rw [hrest] at hlen
    omega
  | cons p ps =>
    obtain ⟨t, w⟩ := p
    rw [if_neg (by simp)] at hrest
    cases t with
    | kind k => cases hkind
    | name n =>
      obtain ⟨-, hstar⟩ := hfresh.name (by simp [nameIn, Token.name?])
      have hat : r.text <:+ n ++ (w ++ typed ps body) := by
        refine hsuffix.trans ?_
        rw [hrest, typed, Token.text, List.cons_append, partition_cons (by decide)]
        exact partition_suffix _ _
      have hname : q.addressee = n := hgood.name
      rw [name_lost h hends hat hgood.text, hstar] at hname
      have hn := h.names n _ (List.mem_cons_self ..)
      rw [← hname] at hn
      revert hn
      decide
    | whisper =>
      obtain ⟨-, hpriv⟩ := hfresh.whisper (by simp [whisperIn])
      have hbang : r.text <:+ str "private" ++ (w ++ typed ps body) := by
        refine hsuffix.trans ?_
        rw [hrest, typed, Token.text, show str "!private" = .scalar '!' :: str "private" from rfl,
          List.cons_append, partition_cons (by decide)]
        exact partition_suffix _ _
      have hloud : q.priv = true := by
        rw [hgood.whisper]
        simp [whisperIn]
      rw [murmur_lost h hends hbang hgood.text, hpriv] at hloud
      cases hloud

theorem reads_kind {k : Str} (h : Typeable ((.kind k, w) :: ps) body) (hbody : rstrip body = body)
    (ih : Reads ps body) : Reads ((.kind k, w) :: ps) body := by
  intro r q hends htext hfresh
  obtain ⟨hseen, hnote⟩ := hfresh.kind (by simp [kindIn, Token.kind?])
  have hk : k ∈ sayKinds := h.kinds k _ (List.mem_cons_self ..)
  have hword : space ∉ k ∧ ∀ s, (k ++ s).head? ≠ some (.scalar 'p') := by
    have hall : ∀ k ∈ sayKinds, space ∉ k ∧ k ≠ [] ∧ k.head? ≠ some (.scalar 'p') := by decide
    obtain ⟨hno, hne, hhead⟩ := hall k hk
    refine ⟨hno, fun s => ?_⟩
    rwa [List.head?_append_of_ne_nil _ hne]
  rw [lstrip_typed] at htext
  have hq := hends.inv_some (next_kind (s := k ++ (w ++ typed ps body)) htext (hword.2 _) hseen)
  -- the white space up to the next prefix or the body
  obtain ⟨z, rest, hz, hzw, hsplit, hrest⟩ : ∃ z rest, z = w ++ (if ps = [] then lead body else []) ∧
      (∀ c ∈ z, isSpace c = true) ∧ w ++ typed ps body = z ++ rest ∧
      rest = typed ps (if ps = [] then lstrip body else body) := by
    by_cases hps : ps = []
    · subst hps
      refine ⟨_, _, rfl, ?_, ?_, rfl⟩
      · simp only [if_true, List.mem_append]
        rintro c (hc | hc)
        · exact h.space c hc
        · exact isSpace_of_mem_lead hc
      · simp only [if_true, typed]
        rw [List.append_assoc, lead_append_lstrip]
    · refine ⟨_, _, rfl, ?_, ?_, rfl⟩
      · simpa only [if_neg hps, List.append_nil] using h.space
      · simp only [if_neg hps, List.append_nil]
  have hsub : w ⊆ z := by
    rw [hz]
    exact List.subset_append_left ..
  rw [partition_append hword.1, hsplit] at hq
  generalize hr' : Reading.mk _ _ _ _ _ _ _ = r' at hq
  have hfresh' : Fresh ps r' := by
    subst hr'
    exact ⟨hfresh.name, fun hsome => absurd h.kindIn_tail hsome, hfresh.whisper⟩
  have hread : r'.text = lstrip (partition space (z ++ rest)).2 ∧ r'.addressee = r.addressee ∧
      r'.priv = r.priv ∧ r'.seenKind = true := by
    subst hr'
    exact ⟨rfl, rfl, rfl, rfl⟩
  obtain ⟨htext', hto', hpriv', hseen'⟩ := hread
  have hkind' : r'.kind = if w.head? = some space then k else str "note" := by
    subst hr'
    simp only [hnote, ← hsplit]
    obtain ⟨c, w', rfl, hc, -⟩ := h.first
    by_cases hsp : c = space
    · subst hsp
      rw [List.cons_append, partition_cons_self, List.append_nil, if_pos hk]
      rfl
    · have hhead : (c :: w').head? ≠ some space := fun heq => hsp (Option.some.inj heq)
      have hmem := (partition_word hword.1 hsp (w' ++ typed ps body)).1
      rw [partition_append hword.1, ← List.cons_append] at hmem
      rw [if_neg hhead, if_neg (not_kind hmem hc)]
  -- the kind that is read, and the rest of the line
  have hgood : AsTyped ((.kind k, w) :: ps) (lstrip body) r q ↔
      r'.kind = k ∧ AsTyped ps (lstrip body) r' q := by
    obtain ⟨-, -, -, hkeep, -⟩ := hq.consumed
    have hkeep := hkeep hseen'
    constructor
    · intro hgood
      have hkq : q.kind = k := hgood.kind
      refine ⟨hkeep.symm.trans hkq, ?_, ?_, ?_, hgood.text⟩
      · rw [hto']
        exact hgood.name
      · rw [h.kindIn_tail]
        exact hkeep
      · rw [hpriv']
        exact hgood.whisper
    · rintro ⟨hkq, htail⟩
      refine ⟨?_, hkeep.trans hkq, ?_, htail.text⟩
      · rw [← hto']
        exact htail.name
      · rw [← hpriv']
        exact htail.whisper
  rw [hgood, Spaced, ← hz]
  by_cases hmem : space ∈ z
  · have hrest' : r'.text = lstrip (typed ps body) := by
      rw [htext', partition_white hmem hzw, hrest]
      split
      · next hps =>
        subst hps
        exact lstrip_lstrip _
      · rfl
    rw [ih r' q hq hrest' hfresh', hkind']
    refine and_congr_left fun _ => ?_
    by_cases hhead : w.head? = some space
    · simp [hhead]
    · rw [if_neg hhead]
      simp [hhead, hmem, eq_comm]
  · have hhead : w.head? ≠ some space := fun hsome => hmem (hsub (List.mem_of_head? hsome))
    have hlost := note_lost h.tail h.kindIn_tail hmem hrest hq htext' hfresh' hbody
    simp [hhead, hmem, hlost]

/-- **The prefix loop reads a line as it was typed exactly where its prefixes are spaced.** -/
theorem reads_typed (h : Typeable ps body) (hbody : rstrip body = body) : Reads ps body := by
  induction ps with
  | nil => exact reads_nil h hbody
  | cons p ps ih =>
    obtain ⟨t, w⟩ := p
    cases t with
    | name n => exact reads_name h (ih h.tail)
    | kind k => exact reads_kind h hbody (ih h.tail)
    | whisper => exact reads_whisper h (ih h.tail)

/-- A line of prefixes and a body does not set the state. -/
theorem typed_not_state (h : Typeable ps body) (hbody : rstrip body = body) :
    (str "!state").isPrefixOf (lstrip (typed ps body)) = false := by
  cases ps with
  | nil =>
    have hhead := h.body_bang
    rw [strip, hbody] at hhead
    rw [typed]
    cases hs : lstrip body with
    | nil => rfl
    | cons p s =>
      rw [hs, List.head?_cons, ne_eq, Option.some.injEq] at hhead
      simp [str, ofChars, List.isPrefixOf, Ne.symm hhead]
  | cons p ps =>
    obtain ⟨t, w⟩ := p
    rw [lstrip_typed]
    cases t with
    | name n => simp [typed, Token.text, str, ofChars, List.isPrefixOf]
    | kind k =>
      have hall : ∀ k ∈ sayKinds, k ≠ [] ∧ k.head? ≠ some (.scalar 's') := by decide
      obtain ⟨hne, hhead⟩ := hall k (h.kinds k _ (List.mem_cons_self ..))
      cases k with
      | nil => exact absurd rfl hne
      | cons p s =>
        rw [List.head?_cons, ne_eq, Option.some.injEq] at hhead
        simp [typed, Token.text, str, ofChars, List.isPrefixOf, Ne.symm hhead]
    | whisper => simp [typed, Token.text, str, ofChars, List.isPrefixOf]

theorem Typeable.rstrip (h : Typeable ps body) : Typeable ps (rstrip body) := by
  have hstrip : strip (Py.rstrip body) = strip body := by rw [strip, rstrip_rstrip, strip]
  exact ⟨h.once, h.names, h.kinds, h.white, hstrip ▸ h.body_ne, hstrip ▸ h.body_at,
    hstrip ▸ h.body_bang⟩

theorem spaced_rstrip (hbody : strip body ≠ []) : Spaced ps (rstrip body) ↔ Spaced ps body := by
  induction ps with
  | nil => exact Iff.rfl
  | cons p ps ih =>
    obtain ⟨t, w⟩ := p
    rw [Spaced, Spaced, ih, lead_rstrip hbody]

/-- **A line is read as the say that was typed, its `!private` included, exactly where the white space
after each prefix begins with a space.**  After `!note` it is enough that it holds one. -/
theorem typed_say {ps : Prefixes} {body : Str} (h : Typeable ps body) (seq : Int) :
    parseOutgoing (typed ps body) seq =
        some (.say ((nameIn ps).getD (str "*")) ((kindIn ps).getD (str "note")) (strip body) seq
          (whisperIn ps)) ↔
      Spaced ps body := by
  have hline : rstrip (typed ps body) = typed ps (rstrip body) := by
    have hnil := typed_append ps [] body
    rw [List.nil_append] at hnil
    rw [hnil, rstrip_append (rstrip_ne_nil h.body_ne), ← typed_append, List.nil_append]
  have htext : strip (typed ps body) = lstrip (typed ps (rstrip body)) := by rw [strip, hline]
  have hstate := typed_not_state h.rstrip (rstrip_rstrip body)
  have hends := Reading.read_ends 3 { text := strip (typed ps body) } (Nat.le_refl 3)
  generalize hq : ({ text := strip (typed ps body) } : Reading).read 3 = q at hends
  have hread := reads_typed h.rstrip (rstrip_rstrip body) _ q hends htext
    ⟨fun _ => ⟨rfl, rfl⟩, fun _ => ⟨rfl, rfl⟩, fun _ => ⟨rfl, rfl⟩⟩
  have hstrip : strip q.text = q.text := by
    obtain ⟨pre, hpre, -⟩ := hends.consumed
    have hsuffix : q.text <:+ rstrip (typed ps body) :=
      List.IsSuffix.trans ⟨pre, hpre.symm⟩ (lstrip_suffix _)
    rw [strip_of_suffix hsuffix]
    exact hends.stripped (lstrip_lstrip _)
  rw [← spaced_rstrip h.body_ne, ← hread]
  simp only [parseOutgoing, htext, hstate, Bool.false_eq_true, if_false, Option.some.injEq,
    Typed.say.injEq, true_and]
  rw [← htext, hq, hstrip]
  constructor
  · rintro ⟨hname, hkind, hbody, hpriv⟩
    exact ⟨hname, hkind, by rw [hpriv, Bool.or_false], hbody⟩
  · intro hgood
    exact ⟨hgood.name, hgood.kind, hgood.text, by rw [hgood.whisper, Bool.or_false]⟩

end

/-- A whisper with its prefix on a line of its own. -/
theorem typed_say_lines :
    parseOutgoing (str "@bob !private \n\tthe key") 1 =
      some (.say (str "bob") (str "note") (str "the key") 1 true) := by
  have h : Typeable [(.name (str "bob"), str " "), (.whisper, str " \n\t")] (str "the key") :=
    ⟨by decide, by simp; decide, by simp, by decide, by decide, by decide, by decide⟩
  exact (typed_say h 1).mpr (by decide)

/-- A whisper whose `!private` is followed by a tab is sent as a public say, without the word after
it. -/
theorem tab_publishes : ¬ ∀ (ps : Prefixes) (body : Str) (seq : Int), Typeable ps body →
    parseOutgoing (typed ps body) seq =
      some (.say ((nameIn ps).getD (str "*")) ((kindIn ps).getD (str "note")) (strip body) seq
        (whisperIn ps)) := by
  intro h
  have hsay := h [(.name (str "bob"), str " "), (.whisper, str "\t")] (str "my key") 1
    ⟨by decide, by simp; decide, by simp, by decide, by decide, by decide, by decide⟩
  have hpublic : parseOutgoing (str "@bob !private\tmy key") 1 =
      some (.say (str "bob") (str "note") (str "key") 1 false) := by decide
  rw [show typed [(.name (str "bob"), str " "), (.whisper, str "\t")] (str "my key") =
    str "@bob !private\tmy key" by decide, hpublic] at hsay
  revert hsay
  decide

end Moot.Spoke
