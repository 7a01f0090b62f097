import Moot.Primitives
import Mathlib.Data.List.TakeWhile

/-!
# The mailbox of a registration

What a participant holds for its next wake, apart from the hub: a bounded wake
queue, the number of messages dropped from it, and the context buffer.  Four
acts change it; two of them hand out a frame.

Proved here, for any list of acts: `Balanced.play`, every copy is in one place
and every loss is counted; `Ordered.play`, the ids handed out are strictly
increasing if the ids put in are new; `All.play`, what holds of all that is put
in holds of all that is kept or handed out.
-/

namespace Moot
open Py

/-- What a participant holds for its next wake. -/
structure Mail where
  owner : Str
  queue : List Msg
  dropped : Nat
  context : ContextBuffer

/-- What can happen to it. -/
inductive Act
  | wake (m : Msg)
  | enqueue (m : Msg)
  | overhear (m : Msg)
  | flush

/-- The copy an act puts in. -/
def Act.msgs : Act → List Msg
  | .wake m | .enqueue m | .overhear m => [m]
  | .flush => []

namespace Mail

variable (cfg : Config)

/-- The queue, behind a note if messages were dropped from it. -/
def noted (b : Mail) : List Msg :=
  if b.dropped = 0 then b.queue else droppedNote b.owner b.dropped :: b.queue

/-- A flush that leaves wakes behind drains the context up to its last wake only. -/
def upto (b : Mail) : Option Nat :=
  if (b.noted.drop cfg.deliverWakeCap).isEmpty then none
  else (b.noted.take cfg.deliverWakeCap).getLast?.map Msg.id

/-- The mail after an act. -/
def act (b : Mail) : Act → Mail
  | .wake m => { b with context := (b.context.drain (some m.id)).2 }
  | .enqueue m =>
    if cfg.queueCap ≤ b.queue.length then
      { b with queue := b.queue.tail ++ [m], dropped := b.dropped + 1 }
    else { b with queue := b.queue ++ [m] }
  | .overhear m => { b with context := b.context.append m }
  | .flush =>
    { b with
      queue := b.noted.drop cfg.deliverWakeCap
      dropped := 0
      context := (b.context.drain (b.upto cfg)).2 }

/-- The frames an act hands out. -/
def frames (b : Mail) : Act → List (List Msg)
  | .wake m => [sortById ((b.context.drain (some m.id)).1 ++ [m])]
  | .flush => [sortById ((b.context.drain (b.upto cfg)).1 ++ b.noted.take cfg.deliverWakeCap)]
  | .enqueue _ | .overhear _ => []

/-- The mail after some acts. -/
def play (b : Mail) (as : List Act) : Mail := as.foldl (act cfg) b

/-- The frames some acts hand out. -/
def playFrames (b : Mail) : List Act → List (List Msg)
  | [] => []
  | a :: as => b.frames cfg a ++ (b.act cfg a).playFrames as

@[simp] theorem play_nil (b : Mail) : b.play cfg [] = b := rfl

@[simp] theorem play_cons (b : Mail) (a : Act) (as : List Act) :
    b.play cfg (a :: as) = (b.act cfg a).play cfg as := rfl

theorem play_append (b : Mail) (as bs : List Act) :
    b.play cfg (as ++ bs) = (b.play cfg as).play cfg bs := List.foldl_append

@[simp] theorem playFrames_nil (b : Mail) : b.playFrames cfg [] = [] := rfl

@[simp] theorem playFrames_cons (b : Mail) (a : Act) (as : List Act) :
    b.playFrames cfg (a :: as) = b.frames cfg a ++ (b.act cfg a).playFrames cfg as := rfl

theorem playFrames_append (b : Mail) (as bs : List Act) :
    b.playFrames cfg (as ++ bs) = b.playFrames cfg as ++ (b.play cfg as).playFrames cfg bs := by
  induction as generalizing b with
  | nil => rfl
  | cons a as ih => rw [List.cons_append, playFrames_cons, ih, playFrames_cons, List.append_assoc]; rfl

@[simp] theorem act_owner (b : Mail) (a : Act) : (b.act cfg a).owner = b.owner := by
  cases a with
  | enqueue m => simp only [act]; split <;> rfl
  | _ => rfl

/-! ## The notes -/

/-- The counts that a flush writes into a note. -/
def noteCount (n : Nat) : List Nat := if n = 0 then [] else [n]

@[simp] theorem sum_noteCount (n : Nat) : (noteCount n).sum = n := by
  unfold noteCount
  split <;> simp_all

theorem noted_eq (b : Mail) :
    b.noted = (noteCount b.dropped).map (droppedNote b.owner) ++ b.queue := by
  unfold noted noteCount
  split <;> rfl

theorem drain_spec (c : ContextBuffer) (upto : Option Nat) :
    ∃ out, (c.drain upto).1 = (noteCount c.evicted).map omittedNote ++ out ∧
      out ++ (c.drain upto).2.items = c.items ∧ ∀ m ∈ out, within upto m = true := by
  obtain ⟨out, hout, hsplit, hwithin⟩ := c.drain_eq upto
  refine ⟨out, ?_, hsplit, hwithin⟩
  rw [hout]
  unfold noteCount
  split <;> rfl

end Mail

/-! ## Conservation -/

/-- The copies put in and the frames handed out. -/
structure Books where
  created : List Msg := []
  frames : List (List Msg) := []

/-- The books after an act. -/
def Books.record (l : Books) (created : List Msg) (frames : List (List Msg)) : Books :=
  ⟨l.created ++ created, l.frames ++ frames⟩

/-- The act puts in a copy of its kind: a wake is addressed to the owner, a line of context is
overheard. -/
def Act.Kinded : Act → Prop
  | .wake m | .enqueue m => m.addressing ≠ some .overheard
  | .overhear m => m.addressing = some .overheard
  | .flush => True

/-- Where the copies are: `handed` are in the frames, and `lost` and `evicted` are gone.  `ds` and
`es` are the counts of the notes that the frames hold beside the copies. -/
structure Placed (l : Books) (b : Mail) (ds es : List Nat) (handed lost evicted : List Msg) :
    Prop where
  frames : l.frames.flatten.Perm (handed ++ (ds.map (droppedNote b.owner) ++ es.map omittedNote))
  copies : l.created.Perm (handed ++ (b.queue ++ (b.context.items ++ (lost ++ evicted))))
  dropped : lost.length = ds.sum + b.dropped
  counted : evicted.length = es.sum + b.context.evicted
  wakes : ∀ m ∈ b.queue ++ lost, m.addressing ≠ some .overheard
  lines : ∀ m ∈ b.context.items ++ evicted, m.addressing = some .overheard

/-- **The law of the mailbox.**  The frames hold copies that were put in and notes about losses, and
nothing else.  A copy that is in no frame is in the queue, in the context or lost; the wakes that
are lost are those that the notes in the frames and `dropped` count, the lines that are lost those
that the notes and `evicted` count. -/
def Balanced (l : Books) (b : Mail) : Prop :=
  ∃ ds es handed lost evicted, Placed l b ds es handed lost evicted

section
variable {cfg : Config} {l : Books} {b : Mail}

theorem Balanced.wake (hb : Balanced l b) (m : Msg) :
    Balanced (l.record [m] (b.frames cfg (.wake m))) (b.act cfg (.wake m)) := by
  obtain ⟨ds, es, handed, lost, evicted, hp⟩ := hb
  obtain ⟨out, hout, hsplit, -⟩ := Mail.drain_spec b.context (some m.id)
  have hframes := hp.frames
  have hcopies := hp.copies
  rw [← hsplit] at hcopies
  refine ⟨ds, es ++ Mail.noteCount b.context.evicted, handed ++ (out ++ [m]), lost, evicted,
    { hp with frames := ?_, copies := ?_, counted := ?_, lines := fun x hx => hp.lines x ?_ }⟩
  · simp only [Books.record, Mail.act, Mail.frames, hout]
    rw [List.perm_iff_count] at hframes ⊢
    intro x
    have := hframes x
    simp only [List.count_append, List.map_append, List.flatten_append, List.flatten_cons,
      List.flatten_nil, (sortById_perm _).count_eq, List.count_nil] at this ⊢
    omega
  · simp only [Books.record, Mail.act]
    rw [List.perm_iff_count] at hcopies ⊢
    intro x
    have := hcopies x
    simp only [List.count_append] at this ⊢
    omega
  · have := hp.counted
    simp only [Mail.act, ContextBuffer.drain_evicted, List.sum_append, Mail.sum_noteCount]
    omega
  · rw [← hsplit]
    rcases List.mem_append.mp hx with hx | hx
    · exact List.mem_append_left _ (List.mem_append_right _ hx)
    · exact List.mem_append_right _ hx

theorem Balanced.enqueue (hb : Balanced l b) {m : Msg} (hm : m.addressing ≠ some .overheard) :
    Balanced (l.record [m] (b.frames cfg (.enqueue m))) (b.act cfg (.enqueue m)) := by
  obtain ⟨ds, es, handed, lost, evicted, hp⟩ := hb
  have hcopies := hp.copies
  simp only [Books.record, Mail.act, Mail.frames, List.append_nil]
  split
  · next hfull =>
    -- the oldest wake makes room
    refine ⟨ds, es, handed, lost ++ b.queue.take 1, evicted,
      { hp with copies := ?_, dropped := ?_, wakes := fun x hx => ?_ }⟩
    · rw [← List.take_append_drop 1 b.queue] at hcopies
      rw [List.perm_iff_count] at hcopies ⊢
      intro x
      have := hcopies x
      simp only [List.count_append, List.drop_one] at this ⊢
      omega
    · have hpos := cfg.queueCap_pos
      have := hp.dropped
      simp only [List.length_append, List.length_take]
      omega
    · simp only [List.mem_append, List.mem_singleton] at hx
      rcases hx with (hx | rfl) | hx | hx
      · exact hp.wakes x (List.mem_append_left _ (List.mem_of_mem_tail hx))
      · exact hm
      · exact hp.wakes x (List.mem_append_right _ hx)
      · exact hp.wakes x (List.mem_append_left _ (List.mem_of_mem_take hx))
  · refine ⟨ds, es, handed, lost, evicted, { hp with copies := ?_, wakes := fun x hx => ?_ }⟩
    · rw [List.perm_iff_count] at hcopies ⊢
      intro x
      have := hcopies x
      simp only [List.count_append] at this ⊢
      omega
    · simp only [List.mem_append, List.mem_singleton] at hx
      rcases hx with (hx | rfl) | hx
      · exact hp.wakes x (List.mem_append_left _ hx)
      · exact hm
      · exact hp.wakes x (List.mem_append_right _ hx)

theorem Balanced.overhear (hb : Balanced l b) {m : Msg} (hm : m.addressing = some .overheard) :
    Balanced (l.record [m] (b.frames cfg (.overhear m))) (b.act cfg (.overhear m)) := by
  obtain ⟨ds, es, handed, lost, evicted, hp⟩ := hb
  have hitems := b.context.append_items m
  have hcopies := hp.copies
  simp only [Books.record, Mail.act, Mail.frames, List.append_nil]
  refine ⟨ds, es, handed, lost, evicted ++ b.context.overflow,
    { hp with copies := ?_, counted := ?_, lines := fun x hx => ?_ }⟩
  · have hcount := fun x => congrArg (List.count x) hitems
    rw [List.perm_iff_count] at hcopies ⊢
    intro x
    have := hcopies x
    have := hcount x
    simp only [List.count_append] at *
    omega
  · have := hp.counted
    simp only [ContextBuffer.append_evicted, List.length_append]
    omega
  · have hin : ∀ y ∈ b.context.overflow ++ (b.context.append m).items,
        y.addressing = some .overheard := by
      rw [hitems]
      intro y hy
      rcases List.mem_append.mp hy with hy | hy
      · exact hp.lines y (List.mem_append_left _ hy)
      · rw [List.mem_singleton.mp hy]
        exact hm
    simp only [List.mem_append] at hx
    rcases hx with hx | hx | hx
    · exact hin x (List.mem_append_right _ hx)
    · exact hp.lines x (List.mem_append_right _ hx)
    · exact hin x (List.mem_append_left _ hx)

theorem Balanced.flush (hb : Balanced l b) :
    Balanced (l.record [] (b.frames cfg .flush)) (b.act cfg .flush) := by
  obtain ⟨ds, es, handed, lost, evicted, hp⟩ := hb
  obtain ⟨out, hout, hsplit, -⟩ := Mail.drain_spec b.context (b.upto cfg)
  have hframes := hp.frames
  have hcopies := hp.copies
  rw [← hsplit] at hcopies
  -- the note about drops stands in front, so it is in the slice and the rest is of the queue
  obtain ⟨taken, htaken, hqueue⟩ : ∃ taken,
      b.noted.take cfg.deliverWakeCap = (Mail.noteCount b.dropped).map (droppedNote b.owner) ++ taken ∧
        taken ++ b.noted.drop cfg.deliverWakeCap = b.queue := by
    have hpos := cfg.deliverWakeCap_pos
    rw [b.noted_eq]
    unfold Mail.noteCount
    split
    · exact ⟨_, rfl, List.take_append_drop _ _⟩
    · obtain ⟨k, hk⟩ : ∃ k, cfg.deliverWakeCap = k + 1 := ⟨cfg.deliverWakeCap - 1, by omega⟩
      rw [hk]
      exact ⟨b.queue.take k, rfl, List.take_append_drop _ _⟩
  refine ⟨ds ++ Mail.noteCount b.dropped, es ++ Mail.noteCount b.context.evicted,
    handed ++ (out ++ taken), lost, evicted, ?_, ?_, ?_, ?_, fun x hx => ?_, fun x hx => ?_⟩
  · simp only [Books.record, Mail.act, Mail.frames, hout, htaken]
    rw [List.perm_iff_count] at hframes ⊢
    intro x
    have := hframes x
    simp only [List.count_append, List.map_append, List.flatten_append, List.flatten_cons,
      List.flatten_nil, (sortById_perm _).count_eq, List.count_nil] at this ⊢
    omega
  · simp only [Books.record, Mail.act, List.append_nil]
    rw [← hqueue] at hcopies
    rw [List.perm_iff_count] at hcopies ⊢
    intro x
    have := hcopies x
    simp only [List.count_append] at this ⊢
    omega
  · have := hp.dropped
    simp only [Mail.act, List.sum_append, Mail.sum_noteCount]
    omega
  · have := hp.counted
    simp only [Mail.act, ContextBuffer.drain_evicted, List.sum_append, Mail.sum_noteCount]
    omega
  · apply hp.wakes x
    rw [← hqueue]
    rcases List.mem_append.mp hx with hx | hx
    · exact List.mem_append_left _ (List.mem_append_right _ hx)
    · exact List.mem_append_right _ hx
  · apply hp.lines x
    rw [← hsplit]
    rcases List.mem_append.mp hx with hx | hx
    · exact List.mem_append_left _ (List.mem_append_right _ hx)
    · exact List.mem_append_right _ hx

theorem Balanced.act (hb : Balanced l b) {a : Act} (ha : a.Kinded) :
    Balanced (l.record a.msgs (b.frames cfg a)) (b.act cfg a) := by
  cases a with
  | wake m => exact hb.wake m
  | enqueue m => exact hb.enqueue ha
  | overhear m => exact hb.overhear ha
  | flush => exact hb.flush

variable (cfg) in
/-- **Conservation**, for any list of acts. -/
theorem Balanced.play (hb : Balanced l b) {as : List Act} (has : ∀ a ∈ as, a.Kinded) :
    Balanced (l.record (as.flatMap Act.msgs) (b.playFrames cfg as)) (b.play cfg as) := by
  induction as generalizing l b with
  | nil => simpa [Books.record] using hb
  | cons a as ih =>
    have hact : Balanced (l.record a.msgs (b.frames cfg a)) (b.act cfg a) :=
      hb.act (has a (List.mem_cons_self ..))
    have := ih hact fun a' ha' => has a' (List.mem_cons_of_mem a ha')
    simpa [Books.record, List.append_assoc] using this

end

/-! ## Drops -/

/-- Drops are counted only while something is queued. -/
def Mail.Tidy (b : Mail) : Prop := b.queue = [] → b.dropped = 0

theorem Mail.Tidy.act {b : Mail} (hb : b.Tidy) (cfg : Config) (a : Act) : (b.act cfg a).Tidy := by
  cases a with
  | wake m => exact hb
  | enqueue m =>
    intro hnil
    simp only [Mail.act] at hnil
    split at hnil <;> simp at hnil
  | overhear m => exact hb
  | flush => exact fun _ => rfl

theorem Mail.Tidy.play {b : Mail} (hb : b.Tidy) (cfg : Config) (as : List Act) :
    (b.play cfg as).Tidy := by
  induction as generalizing b with
  | nil => exact hb
  | cons a as ih => exact ih (hb.act cfg a)

/-! ## What goes in and what comes out -/

section
variable {cfg : Config} {b : Mail} {P : Msg → Prop}

/-- All messages the mailbox keeps satisfy `P`. -/
def Mail.All (P : Msg → Prop) (b : Mail) : Prop := ∀ m ∈ b.queue ++ b.context.items, P m

theorem All.drain {c : ContextBuffer} (hc : ∀ m ∈ c.items, P m) (hnote : ∀ n, P (omittedNote n))
    (upto : Option Nat) :
    (∀ m ∈ (c.drain upto).1, P m) ∧ ∀ m ∈ (c.drain upto).2.items, P m := by
  obtain ⟨out, hout, hsplit, -⟩ := Mail.drain_spec c upto
  rw [← hsplit] at hc
  refine ⟨fun m hm => ?_, fun m hm => hc m (List.mem_append_right _ hm)⟩
  rw [hout] at hm
  rcases List.mem_append.mp hm with hm | hm
  · obtain ⟨n, -, rfl⟩ := List.mem_map.mp hm
    exact hnote n
  · exact hc m (List.mem_append_left _ hm)

theorem All.noted (hb : b.All P) (hnote : ∀ n, P (droppedNote b.owner n)) : ∀ m ∈ b.noted, P m := by
  intro m hm
  rw [b.noted_eq] at hm
  rcases List.mem_append.mp hm with hm | hm
  · obtain ⟨n, -, rfl⟩ := List.mem_map.mp hm
    exact hnote n
  · exact hb m (List.mem_append_left _ hm)

theorem All.act (hb : b.All P) (homitted : ∀ n, P (omittedNote n))
    (hdropped : ∀ n, P (droppedNote b.owner n)) {a : Act} (ha : ∀ m ∈ a.msgs, P m) :
    (b.act cfg a).All P ∧ ∀ f ∈ b.frames cfg a, ∀ m ∈ f, P m := by
  have hqueue : ∀ m ∈ b.queue, P m := fun m hm => hb m (List.mem_append_left _ hm)
  have hitems : ∀ m ∈ b.context.items, P m := fun m hm => hb m (List.mem_append_right _ hm)
  cases a with
  | wake m =>
    obtain ⟨hout, hkept⟩ := All.drain hitems homitted (some m.id)
    refine ⟨fun x hx => ?_, fun f hf x hx => ?_⟩
    · rcases List.mem_append.mp hx with hx | hx
      · exact hqueue x hx
      · exact hkept x hx
    · simp only [Mail.frames, List.mem_singleton] at hf
      subst hf
      rw [mem_sortById] at hx
      rcases List.mem_append.mp hx with hx | hx
      · exact hout x hx
      · exact ha x hx
  | enqueue m =>
    refine ⟨fun x hx => ?_, by simp [Mail.frames]⟩
    simp only [Mail.act] at hx
    split at hx
    · simp only [List.mem_append, List.mem_singleton] at hx
      rcases hx with (hx | rfl) | hx
      · exact hqueue x (List.mem_of_mem_tail hx)
      · exact ha x (List.mem_singleton.mpr rfl)
      · exact hitems x hx
    · simp only [List.mem_append, List.mem_singleton] at hx
      rcases hx with (hx | rfl) | hx
      · exact hqueue x hx
      · exact ha x (List.mem_singleton.mpr rfl)
      · exact hitems x hx
  | overhear m =>
    refine ⟨fun x hx => ?_, by simp [Mail.frames]⟩
    rcases List.mem_append.mp hx with hx | hx
    · exact hqueue x hx
    · have hmem : x ∈ b.context.items ++ [m] := by
        rw [← b.context.append_items m]
        exact List.mem_append_right _ hx
      rcases List.mem_append.mp hmem with hmem | hmem
      · exact hitems x hmem
      · exact ha x hmem
  | flush =>
    obtain ⟨hout, hkept⟩ := All.drain hitems homitted (b.upto cfg)
    have hnoted := All.noted hb hdropped
    refine ⟨fun x hx => ?_, fun f hf x hx => ?_⟩
    · rcases List.mem_append.mp hx with hx | hx
      · exact hnoted x (List.mem_of_mem_drop hx)
      · exact hkept x hx
    · simp only [Mail.frames, List.mem_singleton] at hf
      subst hf
      rw [mem_sortById] at hx
      rcases List.mem_append.mp hx with hx | hx
      · exact hout x hx
      · exact hnoted x (List.mem_of_mem_take hx)

variable (cfg) in
/-- What holds of all that is put in holds of all that is kept or handed out. -/
theorem All.play (hb : b.All P) (homitted : ∀ n, P (omittedNote n))
    (hdropped : ∀ n, P (droppedNote b.owner n)) (as : List Act)
    (has : ∀ m ∈ as.flatMap Act.msgs, P m) :
    (b.play cfg as).All P ∧ ∀ f ∈ b.playFrames cfg as, ∀ m ∈ f, P m := by
  induction as generalizing b with
  | nil => exact ⟨hb, by simp⟩
  | cons a as ih =>
    rw [List.flatMap_cons] at has
    obtain ⟨hact, hframes⟩ : (b.act cfg a).All P ∧ ∀ f ∈ b.frames cfg a, ∀ m ∈ f, P m :=
      All.act hb homitted hdropped fun m hm => has m (List.mem_append_left _ hm)
    obtain ⟨hplay, hplayed⟩ := ih hact (by simpa using hdropped)
      fun m hm => has m (List.mem_append_right _ hm)
    refine ⟨hplay, fun f hf => ?_⟩
    rcases List.mem_append.mp hf with hf | hf
    · exact hframes f hf
    · exact hplayed f hf

end

/-! ## Order -/

/-- The ids that are not zero. -/
def nonzero (ms : List Msg) : List Nat := (ms.map Msg.id).filter (· ≠ 0)

@[simp] theorem nonzero_nil : nonzero [] = [] := rfl

@[simp] theorem nonzero_append (ms ns : List Msg) : nonzero (ms ++ ns) = nonzero ms ++ nonzero ns := by
  simp [nonzero]

theorem mem_nonzero {ms : List Msg} {i : Nat} :
    i ∈ nonzero ms ↔ ∃ m ∈ ms, m.id = i ∧ i ≠ 0 := by
  simp only [nonzero, List.mem_filter, List.mem_map, decide_eq_true_eq]
  constructor
  · rintro ⟨⟨m, hm, rfl⟩, hi⟩
    exact ⟨m, hm, rfl, hi⟩
  · rintro ⟨m, hm, rfl, hi⟩
    exact ⟨⟨m, hm, rfl⟩, hi⟩

theorem nonzero_omitted (ns : List Nat) : nonzero (ns.map omittedNote) = [] := by
  rw [nonzero, List.filter_eq_nil_iff]
  simp [omittedNote]

/-- Sorted without repetition is strictly increasing. -/
theorem nonzero_sortById {ms : List Msg} (h : (nonzero ms).Nodup) :
    (nonzero (sortById ms)).Pairwise (· < ·) := by
  have hsorted : (nonzero (sortById ms)).Pairwise (· ≤ ·) :=
    (List.pairwise_map.mpr (sortById_sorted ms)).filter _
  have hnodup : (nonzero (sortById ms)).Nodup :=
    (((sortById_perm ms).map Msg.id).filter _).nodup_iff.mpr h
  exact (hsorted.and hnodup).imp fun ⟨hle, hne⟩ => Nat.lt_of_le_of_ne hle hne

/-- A deliver frame as an agent may rely on it. -/
structure WellFormedBatch (wakeCap contextCap : Nat) (f : List Msg) : Prop where
  sorted : f.Pairwise fun a b => a.id ≤ b.id
  wakes : ∃ m ∈ f, m.addressing ≠ some .overheard
  wakeCap : (f.filter (·.addressing ≠ some .overheard)).length ≤ wakeCap
  contextCap : (f.filter (·.addressing = some .overheard)).length ≤ contextCap + 1

/-- **The order of the mailbox.**  `seen` are the ids handed out, `k` is at least all ids so far. -/
structure Ordered (cfg : Config) (k : Nat) (seen : List Nat) (b : Mail) : Prop where
  seen_lt : seen.Pairwise (· < ·)
  queue_lt : (b.queue.map Msg.id).Pairwise (· < ·)
  context_lt : (nonzero b.context.items).Pairwise (· < ·)
  apart : ∀ m ∈ b.queue, ∀ c ∈ b.context.items, m.id ≠ c.id
  later : ∀ i ∈ seen, ∀ m ∈ b.queue ++ b.context.items, m.id ≠ 0 → i < m.id
  proper : ∀ m ∈ b.queue, m.id ≠ 0
  seen_le : ∀ i ∈ seen, i ≤ k
  kept_le : ∀ m ∈ b.queue ++ b.context.items, m.id ≤ k
  queued : ∀ m ∈ b.queue, m.addressing ≠ some .overheard
  heard : ∀ m ∈ b.context.items, m.addressing = some .overheard
  cap : b.context.cap = cfg.contextCap

/-- The act is one the hub may take: a new id, or none; a wake only of an empty queue, a flush only
of a queue that is not. -/
def Act.Follows (k : Nat) (b : Mail) : Act → Prop
  | .wake m => k < m.id ∧ m.addressing ≠ some .overheard ∧ b.queue = []
  | .enqueue m => k < m.id ∧ m.addressing ≠ some .overheard
  | .overhear m => (m.id = 0 ∨ k < m.id) ∧ m.addressing = some .overheard
  | .flush => b.queue ≠ []

/-- The highest id after an act. -/
def Act.raise (k : Nat) : Act → Nat
  | .wake m | .enqueue m | .overhear m => max k m.id
  | .flush => k

section
variable {cfg : Config} {k : Nat} {seen : List Nat} {b : Mail}

theorem Ordered.mono (ho : Ordered cfg k seen b) {k' : Nat} (h : k ≤ k') :
    Ordered cfg k' seen b :=
  { ho with
    seen_le := fun i hi => Nat.le_trans (ho.seen_le i hi) h
    kept_le := fun m hm => Nat.le_trans (ho.kept_le m hm) h }

theorem nonzero_cons (m : Msg) (ms : List Msg) :
    nonzero (m :: ms) = if m.id = 0 then nonzero ms else m.id :: nonzero ms := by
  by_cases h : m.id = 0 <;> simp [nonzero, h]

/-- What a bounded drain leaves is above the bound. -/
theorem lt_of_mem_dropWhile {u : Nat} {ms : List Msg} (h : (nonzero ms).Pairwise (· < ·)) :
    ∀ m ∈ ms.dropWhile (within (some u)), m.id ≠ 0 → u < m.id := by
  induction ms with
  | nil => simp
  | cons f ms ih =>
    rw [nonzero_cons] at h
    intro m hm hm0
    rw [List.dropWhile_cons] at hm
    split at hm
    · refine ih ?_ m hm hm0
      split at h
      · exact h
      · exact (List.pairwise_cons.mp h).2
    · next hout =>
      have hf : u < f.id := by simpa [within] using hout
      rcases List.mem_cons.mp hm with rfl | hm
      · exact hf
      · rw [if_neg (by omega)] at h
        exact Nat.lt_trans hf ((List.pairwise_cons.mp h).1 _ (mem_nonzero.mpr ⟨m, hm, rfl, hm0⟩))

/-- A frame of context lines and wakes is well-formed. -/
theorem wellFormedBatch {n : Nat} {out ws : List Msg} (hout : ∀ m ∈ out, m.addressing = some .overheard)
    (hlen : out.length ≤ cfg.contextCap) (hws : ∀ m ∈ ws, m.addressing ≠ some .overheard)
    (hne : ws ≠ []) (hcap : ws.length ≤ cfg.deliverWakeCap) :
    WellFormedBatch cfg.deliverWakeCap cfg.contextCap
      (sortById ((Mail.noteCount n).map omittedNote ++ out ++ ws)) := by
  have hnotes : ∀ m ∈ (Mail.noteCount n).map omittedNote, m.addressing = some .overheard := by
    intro m hm
    obtain ⟨k, -, rfl⟩ := List.mem_map.mp hm
    rfl
  have hnote1 : ((Mail.noteCount n).map omittedNote).length ≤ 1 := by
    unfold Mail.noteCount
    split <;> simp
  have hlines : ∀ m ∈ (Mail.noteCount n).map omittedNote ++ out, m.addressing = some .overheard := by
    intro m hm
    rcases List.mem_append.mp hm with hm | hm
    · exact hnotes m hm
    · exact hout m hm
  have hperm := sortById_perm ((Mail.noteCount n).map omittedNote ++ out ++ ws)
  refine ⟨sortById_sorted _, ?_, ?_, ?_⟩
  · obtain ⟨w, hw⟩ := List.exists_mem_of_ne_nil ws hne
    exact ⟨w, mem_sortById.mpr (List.mem_append_right _ hw), hws w hw⟩
  · rw [(hperm.filter _).length_eq, List.filter_append, List.filter_eq_nil_iff.mpr]
    · exact (List.length_filter_le _ _).trans hcap
    · intro m hm
      simp [hlines m hm]
  · rw [(hperm.filter _).length_eq, List.filter_append, List.length_append,
      List.filter_eq_nil_iff (l := ws)|>.mpr]
    · refine (Nat.add_le_add_right (List.length_filter_le _ _) _).trans ?_
      rw [List.length_append, List.length_nil]
      omega
    · intro m hm
      simpa using hws m hm

/-- What a drain takes from an ordered mailbox, and what it leaves. -/
theorem Ordered.drain (ho : Ordered cfg k seen b) (upto : Option Nat) :
    ∃ out, (b.context.drain upto).1 = (Mail.noteCount b.context.evicted).map omittedNote ++ out ∧
      (∀ m ∈ out, m ∈ b.context.items ∧ within upto m = true) ∧
      (∀ m ∈ (b.context.drain upto).2.items, m ∈ b.context.items) ∧
      (nonzero out).Pairwise (· < ·) ∧
      (nonzero (b.context.drain upto).2.items).Pairwise (· < ·) ∧
      out.length ≤ cfg.contextCap := by
  obtain ⟨out, hout, hsplit, hwithin⟩ := Mail.drain_spec b.context upto
  have hlt := ho.context_lt
  rw [← hsplit, nonzero_append, List.pairwise_append] at hlt
  refine ⟨out, hout, fun m hm => ⟨?_, hwithin m hm⟩, fun m hm => ?_, hlt.1, hlt.2.1, ?_⟩
  · rw [← hsplit]
    exact List.mem_append_left _ hm
  · rw [← hsplit]
    exact List.mem_append_right _ hm
  · have hbound := b.context.bounded
    rw [← hsplit, List.length_append, ho.cap] at hbound
    omega

theorem Ordered.wake (ho : Ordered cfg k seen b) {m : Msg} (hm : (Act.wake m).Follows k b) :
    Ordered cfg (max k m.id) (seen ++ nonzero (b.frames cfg (.wake m)).flatten)
        (b.act cfg (.wake m)) ∧
      ∀ f ∈ b.frames cfg (.wake m), WellFormedBatch cfg.deliverWakeCap cfg.contextCap f := by
  obtain ⟨hnew, haddr, hempty⟩ := hm
  obtain ⟨out, hout, hfrom, -, houtlt, -, hlen⟩ := ho.drain (some m.id)
  have hitems : ∀ c ∈ b.context.items, c.id ≤ k := fun c hc =>
    ho.kept_le c (List.mem_append_right _ hc)
  have hleft : (b.context.drain (some m.id)).2.items = [] := by
    refine List.dropWhile_eq_nil_iff.mpr fun c hc => ?_
    have := hitems c hc
    simp only [within, decide_eq_true_eq]
    omega
  have hnodup : (nonzero ((Mail.noteCount b.context.evicted).map omittedNote ++ out ++ [m])).Nodup := by
    rw [nonzero_append, nonzero_append, nonzero_omitted, List.nil_append]
    refine List.nodup_append.mpr ⟨houtlt.imp Nat.ne_of_lt, ?_, ?_⟩
    · rw [nonzero_cons]
      split <;> simp
    · intro i hi j hj
      obtain ⟨c, hc, rfl, -⟩ := mem_nonzero.mp hi
      obtain ⟨c', hc', rfl, -⟩ := mem_nonzero.mp hj
      rw [List.mem_singleton] at hc'
      subst hc'
      have := hitems c (hfrom c hc).1
      omega
  have hids : ∀ i ∈ nonzero (sortById ((Mail.noteCount b.context.evicted).map omittedNote ++ out ++
      [m])), (∃ c ∈ b.context.items, c.id = i ∧ i ≠ 0) ∨ i = m.id := by
    intro i hi
    obtain ⟨c, hc, rfl, hc0⟩ := mem_nonzero.mp hi
    rw [mem_sortById, List.mem_append, List.mem_append, List.mem_singleton] at hc
    rcases hc with (hc | hc) | rfl
    · obtain ⟨n, -, rfl⟩ := List.mem_map.mp hc
      exact absurd rfl hc0
    · exact Or.inl ⟨c, (hfrom c hc).1, rfl, hc0⟩
    · exact Or.inr rfl
  refine ⟨?_, ?_⟩
  · simp only [Mail.frames, Mail.act, hout, List.flatten_cons, List.flatten_nil, List.append_nil]
    constructor
    · refine List.pairwise_append.mpr ⟨ho.seen_lt, nonzero_sortById hnodup, fun i hi j hj => ?_⟩
      rcases hids j hj with ⟨c, hc, rfl, hc0⟩ | rfl
      · exact ho.later i hi c (List.mem_append_right _ hc) hc0
      · have := ho.seen_le i hi
        omega
    · exact ho.queue_lt
    · rw [hleft]; exact .nil
    · rw [hleft]; simp
    · rw [hleft, hempty]; simp
    · exact ho.proper
    · intro i hi
      rcases List.mem_append.mp hi with hi | hi
      · have := ho.seen_le i hi
        omega
      · rcases hids i hi with ⟨c, hc, rfl, -⟩ | rfl
        · have := hitems c hc
          omega
        · omega
    · rw [hleft, hempty]; simp
    · exact ho.queued
    · rw [hleft]; simp
    · exact ho.cap
  · intro f hf
    simp only [Mail.frames, hout, List.mem_singleton] at hf
    subst hf
    refine wellFormedBatch (fun c hc => ho.heard c (hfrom c hc).1) hlen ?_ (by simp) ?_
    · simpa using haddr
    · exact cfg.deliverWakeCap_pos

theorem Ordered.enqueue (ho : Ordered cfg k seen b) {m : Msg} (hm : (Act.enqueue m).Follows k b) :
    Ordered cfg (max k m.id) seen (b.act cfg (.enqueue m)) := by
  obtain ⟨hnew, haddr⟩ := hm
  have hkeep : ∀ q : List Msg, q.Sublist b.queue → ∀ n, Ordered cfg (max k m.id) seen
      { b with queue := q ++ [m], dropped := n } := by
    intro q hq n
    have hlt := ho.queue_lt.sublist (hq.map Msg.id)
    have hle : ∀ x ∈ q, x.id ≤ k := fun x hx =>
      ho.kept_le x (List.mem_append_left _ (hq.subset hx))
    refine { ho with
      queue_lt := ?_, apart := ?_, later := ?_, proper := ?_, seen_le := ?_, kept_le := ?_,
      queued := ?_ }
    · rw [List.map_append]
      refine List.pairwise_append.mpr ⟨hlt, by simp, fun i hi j hj => ?_⟩
      obtain ⟨x, hx, rfl⟩ := List.mem_map.mp hi
      have := hle x hx
      simp only [List.map_cons, List.map_nil, List.mem_singleton] at hj
      omega
    · intro x hx c hc
      rcases List.mem_append.mp hx with hx | hx
      · exact ho.apart x (hq.subset hx) c hc
      · rw [List.mem_singleton] at hx
        have := ho.kept_le c (List.mem_append_right _ hc)
        rw [hx]
        omega
    · intro i hi x hx hx0
      simp only [List.mem_append, List.mem_singleton] at hx
      rcases hx with (hx | rfl) | hx
      · exact ho.later i hi x (List.mem_append_left _ (hq.subset hx)) hx0
      · have := ho.seen_le i hi
        omega
      · exact ho.later i hi x (List.mem_append_right _ hx) hx0
    · intro x hx
      rcases List.mem_append.mp hx with hx | hx
      · exact ho.proper x (hq.subset hx)
      · rw [List.mem_singleton] at hx
        rw [hx]
        omega
    · intro i hi
      have := ho.seen_le i hi
      omega
    · intro x hx
      simp only [List.mem_append, List.mem_singleton] at hx
      rcases hx with (hx | rfl) | hx
      · have := hle x hx
        omega
      · omega
      · have := ho.kept_le x (List.mem_append_right _ hx)
        omega
    · intro x hx
      rcases List.mem_append.mp hx with hx | hx
      · exact ho.queued x (hq.subset hx)
      · rw [List.mem_singleton] at hx
        rw [hx]
        exact haddr
  simp only [Mail.act]
  split
  · exact hkeep b.queue.tail (List.tail_sublist _) _
  · exact hkeep b.queue (List.Sublist.refl _) _

theorem Ordered.overhear (ho : Ordered cfg k seen b) {m : Msg}
    (hm : (Act.overhear m).Follows k b) :
    Ordered cfg (max k m.id) seen (b.act cfg (.overhear m)) := by
  obtain ⟨hnew, haddr⟩ := hm
  have hsplit := b.context.append_items m
  have hmem : ∀ x ∈ (b.context.append m).items, x ∈ b.context.items ∨ x = m := by
    intro x hx
    have : x ∈ b.context.items ++ [m] := by
      rw [← hsplit]
      exact List.mem_append_right _ hx
    simpa using this
  have hlt : (nonzero (b.context.items ++ [m])).Pairwise (· < ·) := by
    rw [nonzero_append, nonzero_cons]
    split
    · simpa using ho.context_lt
    · next hm0 =>
      refine List.pairwise_append.mpr ⟨ho.context_lt, by simp, fun i hi j hj => ?_⟩
      obtain ⟨x, hx, rfl, -⟩ := mem_nonzero.mp hi
      have := ho.kept_le x (List.mem_append_right _ hx)
      simp only [nonzero_nil, List.mem_singleton] at hj
      omega
  simp only [Mail.act]
  refine { ho with
    context_lt := ?_, apart := ?_, later := ?_, seen_le := ?_, kept_le := ?_, heard := ?_,
    cap := ho.cap }
  · rw [← hsplit, nonzero_append] at hlt
    exact (List.pairwise_append.mp hlt).2.1
  · intro x hx c hc
    rcases hmem c hc with hc | rfl
    · exact ho.apart x hx c hc
    · have := ho.kept_le x (List.mem_append_left _ hx)
      have := ho.proper x hx
      omega
  · intro i hi x hx hx0
    rcases List.mem_append.mp hx with hx | hx
    · exact ho.later i hi x (List.mem_append_left _ hx) hx0
    · rcases hmem x hx with hx | rfl
      · exact ho.later i hi x (List.mem_append_right _ hx) hx0
      · have := ho.seen_le i hi
        omega
  · intro i hi
    have := ho.seen_le i hi
    omega
  · intro x hx
    rcases List.mem_append.mp hx with hx | hx
    · have := ho.kept_le x (List.mem_append_left _ hx)
      omega
    · rcases hmem x hx with hx | rfl
      · have := ho.kept_le x (List.mem_append_right _ hx)
        omega
      · omega
  · intro x hx
    rcases hmem x hx with hx | rfl
    · exact ho.heard x hx
    · exact haddr

/-- The ids of a flush's queue are increasing: a note counts as 0. -/
theorem Ordered.noted_lt (ho : Ordered cfg k seen b) : (b.noted.map Msg.id).Pairwise (· < ·) := by
  unfold Mail.noted
  split
  · exact ho.queue_lt
  · rw [List.map_cons, List.pairwise_cons]
    refine ⟨fun i hi => ?_, ho.queue_lt⟩
    obtain ⟨m, hm, rfl⟩ := List.mem_map.mp hi
    exact Nat.pos_of_ne_zero (ho.proper m hm)

theorem noted_ne_nil (h : b.queue ≠ []) : b.noted ≠ [] := by
  unfold Mail.noted
  split
  · exact h
  · simp

/-- What a flush takes is a note or from the queue; what it leaves is from the queue. -/
theorem mem_noted {m : Msg} (hm : m ∈ b.noted) : m ∈ b.queue ∨ m = droppedNote b.owner b.dropped := by
  unfold Mail.noted at hm
  split at hm
  · exact Or.inl hm
  · exact (List.mem_cons.mp hm).symm

theorem mem_rest {m : Msg} (hm : m ∈ b.noted.drop cfg.deliverWakeCap) : m ∈ b.queue := by
  obtain ⟨n, hn⟩ := Nat.exists_eq_succ_of_ne_zero (Nat.ne_of_gt cfg.deliverWakeCap_pos)
  unfold Mail.noted at hm
  split at hm
  · exact List.mem_of_mem_drop hm
  · rw [hn, List.drop_succ_cons] at hm
    exact List.mem_of_mem_drop hm

/-- A flush leaves no wakes behind, or drains the context up to its last one. -/
theorem Ordered.upto_spec (ho : Ordered cfg k seen b) :
    (b.noted.drop cfg.deliverWakeCap = [] ∧ b.upto cfg = none) ∨
      ∃ u, b.upto cfg = some u ∧ (∀ m ∈ b.noted.take cfg.deliverWakeCap, m.id ≤ u) ∧
        ∀ m ∈ b.noted.drop cfg.deliverWakeCap, u < m.id := by
  have hlt := ho.noted_lt
  rw [← List.take_append_drop cfg.deliverWakeCap b.noted, List.map_append,
    List.pairwise_append] at hlt
  obtain ⟨htake, -, hcross⟩ := hlt
  by_cases hrest : b.noted.drop cfg.deliverWakeCap = []
  · exact Or.inl ⟨hrest, by simp [Mail.upto, hrest]⟩
  · have htne : b.noted.take cfg.deliverWakeCap ≠ [] := by
      have hpos := cfg.deliverWakeCap_pos
      intro hnil
      rcases List.take_eq_nil_iff.mp hnil with h | h
      · omega
      · rw [h, List.drop_nil] at hrest
        exact hrest rfl
    obtain ⟨w, hw⟩ := Option.ne_none_iff_exists'.mp (mt List.getLast?_eq_none_iff.mp htne)
    obtain ⟨ws, hws⟩ := List.getLast?_eq_some_iff.mp hw
    refine Or.inr ⟨w.id, by simp [Mail.upto, hrest, hw], fun m hm => ?_, fun m hm => ?_⟩
    · rw [hws, List.map_append, List.pairwise_append] at htake
      rw [hws, List.mem_append, List.mem_singleton] at hm
      rcases hm with hm | rfl
      · exact Nat.le_of_lt (htake.2.2 m.id (List.mem_map_of_mem hm) w.id (by simp))
      · exact Nat.le_refl _
    · have hmem : w ∈ b.noted.take cfg.deliverWakeCap := List.mem_of_getLast? hw
      exact hcross w.id (List.mem_map_of_mem hmem) m.id (List.mem_map_of_mem hm)

theorem Ordered.flush (ho : Ordered cfg k seen b) (hne : b.queue ≠ []) :
    Ordered cfg k (seen ++ nonzero (b.frames cfg .flush).flatten) (b.act cfg .flush) ∧
      ∀ f ∈ b.frames cfg .flush, WellFormedBatch cfg.deliverWakeCap cfg.contextCap f := by
  obtain ⟨out, hout, hfrom, hkept, houtlt, hrestlt, hlen⟩ := ho.drain (b.upto cfg)
  have hwlt : (nonzero (b.noted.take cfg.deliverWakeCap)).Pairwise (· < ·) :=
    (ho.noted_lt.sublist ((List.take_sublist _ _).map Msg.id)).filter _
  have hwfrom : ∀ m ∈ b.noted.take cfg.deliverWakeCap, m.id ≠ 0 → m ∈ b.queue := by
    intro m hm hm0
    rcases mem_noted (List.mem_of_mem_take hm) with hm | rfl
    · exact hm
    · exact absurd rfl hm0
  have hnodup : (nonzero ((Mail.noteCount b.context.evicted).map omittedNote ++ out ++
      b.noted.take cfg.deliverWakeCap)).Nodup := by
    rw [nonzero_append, nonzero_append, nonzero_omitted, List.nil_append]
    refine List.nodup_append.mpr ⟨houtlt.imp Nat.ne_of_lt, hwlt.imp Nat.ne_of_lt, ?_⟩
    intro i hi j hj hij
    obtain ⟨c, hc, rfl, -⟩ := mem_nonzero.mp hi
    obtain ⟨w, hw, hwid, hw0⟩ := mem_nonzero.mp hj
    have hw' := hwfrom w hw (by rw [hwid]; exact hw0)
    exact ho.apart w hw' c (hfrom c hc).1 (by rw [hwid, ← hij])
  -- an id of the frame is that of a drained line or of a wake
  have hids : ∀ i ∈ nonzero (sortById ((Mail.noteCount b.context.evicted).map omittedNote ++ out ++
      b.noted.take cfg.deliverWakeCap)), i ≠ 0 ∧
      ((∃ c ∈ out, c.id = i) ∨ ∃ w ∈ b.noted.take cfg.deliverWakeCap, w.id = i) := by
    intro i hi
    obtain ⟨c, hc, rfl, hc0⟩ := mem_nonzero.mp hi
    rw [mem_sortById, List.mem_append, List.mem_append] at hc
    rcases hc with (hc | hc) | hc
    · obtain ⟨n, -, rfl⟩ := List.mem_map.mp hc
      exact absurd rfl hc0
    · exact ⟨hc0, Or.inl ⟨c, hc, rfl⟩⟩
    · exact ⟨hc0, Or.inr ⟨c, hc, rfl⟩⟩
  have hstored : ∀ i ∈ nonzero (sortById ((Mail.noteCount b.context.evicted).map omittedNote ++ out ++
      b.noted.take cfg.deliverWakeCap)), ∃ c ∈ b.queue ++ b.context.items, c.id = i ∧ i ≠ 0 := by
    intro i hi
    obtain ⟨hi0, ⟨c, hc, hci⟩ | ⟨w, hw, hwi⟩⟩ := hids i hi
    · exact ⟨c, List.mem_append_right _ (hfrom c hc).1, hci, hi0⟩
    · exact ⟨w, List.mem_append_left _ (hwfrom w hw (by rw [hwi]; exact hi0)), hwi, hi0⟩
  have hafter : ∀ i ∈ nonzero (sortById ((Mail.noteCount b.context.evicted).map omittedNote ++ out ++
      b.noted.take cfg.deliverWakeCap)),
      ∀ m ∈ b.noted.drop cfg.deliverWakeCap ++ (b.context.drain (b.upto cfg)).2.items,
        m.id ≠ 0 → i < m.id := by
    intro i hi m hm hm0
    rcases ho.upto_spec with ⟨hrest, hnone⟩ | ⟨u, hu, htake, hdrop⟩
    · have hall : (b.context.drain none).2.items = [] :=
        List.dropWhile_eq_nil_iff.mpr fun _ _ => rfl
      rw [hrest, hnone, hall] at hm
      simp at hm
    · have hiu : i ≤ u := by
        obtain ⟨-, ⟨c, hc, rfl⟩ | ⟨w, hw, rfl⟩⟩ := hids i hi
        · have := (hfrom c hc).2
          rw [hu] at this
          simpa [within] using this
        · exact htake w hw
      have hum : u < m.id := by
        rcases List.mem_append.mp hm with hm | hm
        · exact hdrop m hm
        · refine lt_of_mem_dropWhile ho.context_lt m ?_ hm0
          rw [hu] at hm
          exact hm
      omega
  constructor
  · simp only [Mail.frames, Mail.act, hout, List.flatten_cons, List.flatten_nil, List.append_nil]
    constructor
    · refine List.pairwise_append.mpr ⟨ho.seen_lt, nonzero_sortById hnodup, fun i hi j hj => ?_⟩
      obtain ⟨c, hc, rfl, hc0⟩ := hstored j hj
      exact ho.later i hi c hc hc0
    · exact ho.noted_lt.sublist ((List.drop_sublist _ _).map Msg.id)
    · exact hrestlt
    · exact fun m hm c hc => ho.apart m (mem_rest hm) c (hkept c hc)
    · intro i hi m hm hm0
      rcases List.mem_append.mp hi with hi | hi
      · refine ho.later i hi m ?_ hm0
        rcases List.mem_append.mp hm with hm | hm
        · exact List.mem_append_left _ (mem_rest hm)
        · exact List.mem_append_right _ (hkept m hm)
      · exact hafter i hi m hm hm0
    · exact fun m hm => ho.proper m (mem_rest hm)
    · intro i hi
      rcases List.mem_append.mp hi with hi | hi
      · exact ho.seen_le i hi
      · obtain ⟨c, hc, rfl, -⟩ := hstored i hi
        exact ho.kept_le c hc
    · intro m hm
      rcases List.mem_append.mp hm with hm | hm
      · exact ho.kept_le m (List.mem_append_left _ (mem_rest hm))
      · exact ho.kept_le m (List.mem_append_right _ (hkept m hm))
    · exact fun m hm => ho.queued m (mem_rest hm)
    · exact fun m hm => ho.heard m (hkept m hm)
    · exact ho.cap
  · intro f hf
    simp only [Mail.frames, hout, List.mem_singleton] at hf
    subst hf
    refine wellFormedBatch (fun c hc => ho.heard c (hfrom c hc).1) hlen (fun m hm => ?_) ?_ ?_
    · rcases mem_noted (List.mem_of_mem_take hm) with hm | rfl
      · exact ho.queued m hm
      · simp [droppedNote]
    · have hpos := cfg.deliverWakeCap_pos
      have := noted_ne_nil hne
      simp only [ne_eq, List.take_eq_nil_iff, not_or]
      exact ⟨by omega, this⟩
    · exact List.length_take_le _ _

theorem Ordered.act (ho : Ordered cfg k seen b) {a : Act} (ha : a.Follows k b) :
    Ordered cfg (a.raise k) (seen ++ nonzero (b.frames cfg a).flatten) (b.act cfg a) ∧
      ∀ f ∈ b.frames cfg a, WellFormedBatch cfg.deliverWakeCap cfg.contextCap f := by
  cases a with
  | wake m => exact ho.wake ha
  | enqueue m =>
    refine ⟨?_, by simp [Mail.frames]⟩
    simpa [Mail.frames, Act.raise] using ho.enqueue ha
  | overhear m =>
    refine ⟨?_, by simp [Mail.frames]⟩
    simpa [Mail.frames, Act.raise] using ho.overhear ha
  | flush => exact ho.flush ha

/-- Every act of a list follows, when its turn comes. -/
def FollowsAll (cfg : Config) : Nat → Mail → List Act → Prop
  | _, _, [] => True
  | k, b, a :: as => a.Follows k b ∧ FollowsAll cfg (a.raise k) (b.act cfg a) as

theorem FollowsAll.kinded {cfg : Config} {k : Nat} {b : Mail} {as : List Act}
    (has : FollowsAll cfg k b as) : ∀ a ∈ as, a.Kinded := by
  induction as generalizing k b with
  | nil => simp
  | cons a as ih =>
    intro a' ha'
    rcases List.mem_cons.mp ha' with rfl | ha'
    · have hfollows := has.1
      cases a' with
      | wake m => exact hfollows.2.1
      | enqueue m => exact hfollows.2
      | overhear m => exact hfollows.2
      | flush => trivial
    · exact ih has.2 a' ha'

/-- **The order is kept**, by any list of acts that follow. -/
theorem Ordered.play (ho : Ordered cfg k seen b) {as : List Act} (has : FollowsAll cfg k b as) :
    Ordered cfg (as.foldl Act.raise k) (seen ++ nonzero (b.playFrames cfg as).flatten)
        (b.play cfg as) ∧
      ∀ f ∈ b.playFrames cfg as, WellFormedBatch cfg.deliverWakeCap cfg.contextCap f := by
  induction as generalizing k seen b with
  | nil => exact ⟨by simpa using ho, by simp⟩
  | cons a as ih =>
    obtain ⟨hact, hframes⟩ := ho.act has.1
    obtain ⟨hplay, hplayed⟩ := ih hact has.2
    refine ⟨?_, fun f hf => ?_⟩
    · simpa [List.append_assoc] using hplay
    · rcases List.mem_append.mp hf with hf | hf
      · exact hframes f hf
      · exact hplayed f hf

end

end Moot
