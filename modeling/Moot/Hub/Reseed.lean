import Moot.Hub.Numbering
import Moot.Hub.Dedup

/-!
# The backlog after a restart

The recent window is a list in memory; the day files hold the same messages among
other records.  At any time the window is the end of what was written since some day,
and a new hub takes the end of what was written since yesterday.  If the old window
reaches no further back, the two are one.

Proved here: `restart_keeps_backlog`.
-/

namespace Moot
open Py PyJson Proto Hub

section
variable {F : Type} [PyFloat F] {site : Site F} {env : Env}

/-! ## What is accepted encodes -/

omit [PyFloat F] in
theorem clean_lookup {kvs : List (Str × Json F)} {key s : Str} (hclean : AllFields Py.Clean kvs)
    (hkey : kvs.lookup key = some (.str s)) : Py.Clean s := by
  induction kvs with
  | nil => cases hkey
  | cons kv kvs ih =>
    obtain ⟨k, v⟩ := kv
    rw [allFields_cons] at hclean
    rw [List.lookup_cons] at hkey
    split at hkey
    · cases hkey
      exact hclean.2.1
    · exact ih hclean.2.2 hkey

theorem clean_nameChar {p : CodePoint} (hp : isNameChar p = true) : p.isScalar = true := by
  cases p with
  | scalar c => rfl
  | surrogate n => simp [isNameChar, isAlnum] at hp

theorem clean_protocolName {s : Str} (hs : isProtocolName s = true) : Py.Clean s := by
  cases s with
  | nil => exact clean_nil
  | cons p s =>
    simp only [isProtocolName, Bool.and_eq_true, List.all_eq_true] at hs
    rw [clean_cons]
    exact ⟨clean_nameChar (by simp [isNameChar, hs.1.1]), fun q hq => clean_nameChar (hs.1.2 q hq)⟩

theorem clean_name {s : Str} (hs : nameRe s = true) : Py.Clean s := by
  simp only [nameRe, Bool.or_eq_true, Bool.and_eq_true, decide_eq_true_eq] at hs
  rcases hs with hs | ⟨hlast, hs⟩
  · exact clean_protocolName hs
  · obtain ⟨before, rfl⟩ := List.getLast?_eq_some_iff.mp hlast
    rw [List.dropLast_concat] at hs
    rw [clean_append]
    exact ⟨clean_protocolName hs, by decide⟩

theorem clean_sayKind {kind : Str} (hkind : kind ∈ sayKinds) : Py.Clean kind := by
  revert kind
  decide

namespace Hub

theorem mem_acceptedSays {h : Hub} {op : Op F} {r : MsgRec} (hr : r ∈ acceptedSays env h op) :
    ∃ c frame f p, op = .handle c frame ∧ validate env.isPrintable frame = .ok (.say f) ∧
      (h.lifeSign (h.wire.clients c).name).get? (h.wire.clients c).name = some p ∧
      r = recordOf ((h.lifeSign (h.wire.clients c).name).sayMsg p f) := by
  unfold acceptedSays at hr
  split at hr
  · next c frame =>
    split at hr
    · next f hv =>
      unfold acceptedOf at hr
      split at hr
      · cases hr
      · next p hp =>
        split at hr
        · exact ⟨c, frame, f, p, rfl, hv, hp, List.mem_singleton.mp hr⟩
        · cases hr
    · cases hr
  · cases hr

/-- An accepted say is stamped with the time, and encodes if its frame does. -/
theorem encodes_accepted {h : Hub} (hw : h.Wf)
    (hnames : ∀ n q, h.box? n = some q → nameRe n = true) {op : Op F}
    (hclean : ∀ c frame, op = .handle c frame → (Json.obj frame).Clean) {r : MsgRec}
    (hr : r ∈ acceptedSays env h op) : r.Encodes ∧ r.ts = h.wall := by
  obtain ⟨c, frame, f, p, rfl, hv, hp, rfl⟩ := mem_acceptedSays hr
  have hlife : Keeps ∅ ∅ True h (h.lifeSign (h.wire.clients c).name) := keeps_lifeSign h _
  obtain ⟨q, hq, -⟩ := hlife.back hp
  have hname : p.name = (h.wire.clients c).name := hlife.named hw.named _ p hp
  obtain ⟨hto, htext, -⟩ := validateSay_fields (validate_of_say hv)
  have hframe : AllFields Py.Clean frame := hclean c frame rfl
  refine ⟨⟨?_, clean_lookup hframe hto, clean_sayKind f.kind_ok, clean_lookup hframe htext⟩,
    hlife.wall⟩
  show Py.Clean p.name
  rw [hname]
  exact clean_name (hnames _ q (box?_of_get? hq))

/-- The wall clock stands during an operation. -/
theorem wall_step {h : Hub} (hw : h.Wf) {op : Op F} (hop : ∀ now wall, op ≠ .clock now wall) :
    (h.step env op).wall = h.wall := by
  have hI : Handled env anyFrame fun k => k.wall = h.wall :=
    handled_of_roster env (fun _ _ _ hr hk => hr.wall.trans hk) (fun _ _ _ _ _ hk => hk)
      fun _ _ _ _ _ _ hk => hk
  apply hI.step hw rfl (allowed_any h op) (fun _ => rfl)
  intro now wall heq
  exact absurd heq (hop now wall)

theorem recentAfter_lastN (xs rs : List MsgRec) :
    recentAfter env (lastN env.config.recentWindow xs) rs =
      lastN env.config.recentWindow (xs ++ rs) := by
  induction rs generalizing xs with
  | nil => rw [List.append_nil]; rfl
  | cons r rs ih =>
    show recentAfter env (lastN _ (lastN _ xs ++ [r])) rs = _
    rw [lastN_lastN_append, ih, List.append_assoc]
    rfl

end Hub

/-! ## The window and the files -/

/-- The messages since the day `d`. -/
def since (site : Site F) (d : Int) (said : List (Rat × MsgRec)) : List (Rat × MsgRec) :=
  said.filter fun e => d ≤ site.day e.1

/-- Of a list in the order of `g`, up to `k`, the days before `k` and `k` make up the end. -/
theorem filter_two {α : Type} {g : α → Int} {k : Int} {xs : List α}
    (hsorted : xs.Pairwise fun x y => g x ≤ g y) (hle : ∀ x ∈ xs, g x ≤ k) :
    (xs.filter fun x => g x = k - 1) ++ (xs.filter fun x => g x = k) =
      xs.filter fun x => k - 1 ≤ g x := by
  induction xs with
  | nil => rfl
  | cons x xs ih =>
    have hafter : ∀ y ∈ xs, g x ≤ g y := fun y hy => List.rel_of_pairwise_cons hsorted hy
    have hle' : ∀ y ∈ xs, g y ≤ k := fun y hy => hle y (List.mem_cons_of_mem _ hy)
    have hx := hle x (List.mem_cons_self ..)
    have hrest := ih hsorted.tail hle'
    by_cases hk : g x = k
    · -- from here on every day is `k`
      have hall : ∀ y ∈ x :: xs, g y = k := by
        intro y hy
        rcases List.mem_cons.mp hy with rfl | hy
        · exact hk
        · have := hafter y hy
          have := hle' y hy
          omega
      have hnone : (x :: xs).filter (fun y => g y = k - 1) = [] := by
        apply List.filter_eq_nil_iff.mpr
        intro y hy
        have := hall y hy
        simp only [decide_eq_true_eq]
        omega
      have hsome : ∀ y ∈ x :: xs, k - 1 ≤ g y := by
        intro y hy
        have := hall y hy
        omega
      rw [hnone, List.nil_append, List.filter_eq_self.mpr fun y hy => decide_eq_true (hall y hy),
        List.filter_eq_self.mpr fun y hy => decide_eq_true (hsome y hy)]
    · by_cases hk' : g x = k - 1
      · have hlow : k - 1 ≤ g x := by omega
        rw [List.filter_cons_of_pos (by simpa using hk'), List.filter_cons_of_neg (by simpa using hk),
          List.filter_cons_of_pos (by simpa using hlow), List.cons_append, hrest]
      · have hlow : ¬ k - 1 ≤ g x := by omega
        rw [List.filter_cons_of_neg (by simpa using hk'), List.filter_cons_of_neg (by simpa using hk),
          List.filter_cons_of_neg (by simpa using hlow), hrest]

/-- The wall clock does not go back, and what is sent encodes. -/
def Onward (w : World) : Event F → Prop
  | .op (.clock _ wall) => w.hub.wall ≤ wall
  | .op (.handle _ frame) => (Json.obj frame).Clean
  | .restart _ wall => w.hub.wall ≤ wall
  | _ => True

/-- Whatever was accepted is in the files, in the order of time, and the window is the end of it. -/
structure Mirrors (site : Site F) (env : Env) (w : World) : Prop where
  wf : w.hub.Wf
  names : Carries (fun n => nameRe n = true) (fun _ => True) w.hub
  encodes : ∀ e ∈ saidAt w.log, e.2.Encodes ∧ e.2.ts = e.1
  ordered : (saidAt w.log).Pairwise fun e e' => e.1 ≤ e'.1
  past : ∀ e ∈ saidAt w.log, e.1 ≤ w.hub.wall
  recent : ∃ d, d < site.day w.hub.wall ∧
    w.hub.recent = lastN env.config.recentWindow ((since site d (saidAt w.log)).map Prod.snd)

omit [PyFloat F] in
theorem Mirrors.days {w : World} (hm : Mirrors site env w) (hday : Monotone site.day) :
    (saidAt w.log).Pairwise fun e e' => site.day e.1 ≤ site.day e'.1 :=
  hm.ordered.imp fun hle => hday hle

theorem Mirrors.op {w : World} (hm : Mirrors site env w) (hday : Monotone site.day) {op : Op F}
    (ho : Onward w (.op op)) : Mirrors site env (w.step site env (.op op)) := by
  have hrem := remembers_step env hm.wf op
  have hsaid : saidAt (w.step site env (.op op)).log =
      saidAt w.log ++ (acceptedSays env w.hub op).map fun r => (w.hub.wall, r) := by
    show saidAt (w.past ++ (w.hub.step env op).wire.log) = saidAt (w.past ++ w.hub.wire.log) ++ _
    rw [saidAt_append, saidAt_append, hrem.said, List.append_assoc]
  have hclean : ∀ c frame, op = .handle c frame → (Json.obj frame).Clean := by
    rintro c frame rfl
    exact ho
  have hwall : w.hub.wall ≤ (w.hub.step env op).wall := by
    by_cases hop : ∃ now wall, op = .clock now wall
    · obtain ⟨now, wall, rfl⟩ := hop
      exact ho
    · rw [wall_step hm.wf fun now wall heq => hop ⟨now, wall, heq⟩]
  have hnew : ∀ e ∈ (acceptedSays env w.hub op).map (fun r => (w.hub.wall, r)),
      e.1 = w.hub.wall ∧ e.2.Encodes ∧ e.2.ts = e.1 := by
    intro e he
    obtain ⟨r, hr, rfl⟩ := List.mem_map.mp he
    exact ⟨rfl, encodes_accepted hm.wf hm.names.names hclean hr⟩
  constructor
  · exact hm.wf.step env op
  · exact checked_step hm.wf hm.names op
  · intro e he
    rw [hsaid] at he
    rcases List.mem_append.mp he with he | he
    · exact hm.encodes e he
    · exact (hnew e he).2
  · rw [hsaid]
    apply List.pairwise_append.mpr
    refine ⟨hm.ordered, ?_, ?_⟩
    · apply List.pairwise_of_forall_mem_list
      intro e he e' he'
      rw [(hnew e he).1, (hnew e' he').1]
    · intro e he e' he'
      rw [(hnew e' he').1]
      exact hm.past e he
  · intro e he
    rw [hsaid] at he
    rcases List.mem_append.mp he with he | he
    · exact (hm.past e he).trans hwall
    · rw [(hnew e he).1]
      exact hwall
  · obtain ⟨d, hd, hrecent⟩ := hm.recent
    refine ⟨d, hd.trans_le (hday hwall), ?_⟩
    have hall : ((acceptedSays env w.hub op).map fun r => (w.hub.wall, r)).filter
        (fun e => d ≤ site.day e.1) = (acceptedSays env w.hub op).map fun r => (w.hub.wall, r) := by
      apply List.filter_eq_self.mpr
      intro e he
      rw [(hnew e he).1]
      exact decide_eq_true hd.le
    show (w.hub.step env op).recent = _
    rw [hrem.recent, hrecent, recentAfter_lastN, hsaid, since, since, List.filter_append, hall,
      List.map_append, List.map_map]
    congr 2
    exact (List.map_id _).symm

/-- What a new hub takes. -/
theorem Mirrors.start {w : World} (hm : Mirrors site env w) (hday : Monotone site.day)
    {wall : Rat} (hwall : w.hub.wall ≤ wall) (now : Rat) :
    Hub.start site env (w.dir site) now wall = some (Hub.init env
      ((since site (site.day wall - 1) (saidAt w.log)).map Prod.snd) now wall) := by
  have hon : ∀ day, messagesOn site (saidAt w.log) day =
      ((saidAt w.log).filter fun e => site.day e.1 = day).map Prod.snd := by
    intro day
    rw [messagesOn]
    congr 1
    apply List.filter_congr
    intro e he
    simp [(hm.encodes e he).1]
  have hle : ∀ e ∈ saidAt w.log, site.day e.1 ≤ site.day wall :=
    fun e he => hday ((hm.past e he).trans hwall)
  rw [start_eq, hon, hon, ← List.map_append, filter_two (hm.days hday) hle]
  rfl

theorem Mirrors.restart {w : World} (hm : Mirrors site env w) (hday : Monotone site.day)
    {now wall : Rat} (hwall : w.hub.wall ≤ wall) :
    Mirrors site env (w.step site env (.restart now wall)) := by
  have hlog : (w.step site env (.restart now wall)).log = w.log := by
    rw [step_restart]
    exact List.append_nil _
  have hhub : (w.step site env (.restart now wall)).hub = Hub.init env
      ((since site (site.day wall - 1) (saidAt w.log)).map Prod.snd) now wall := by
    rw [World.step, hm.start hday hwall]
  constructor
  · rw [hhub]
    exact wf_init env _ now wall
  · rw [hhub]
    exact carries_init (fun _ _ => trivial) now wall
  · rw [hlog]
    exact hm.encodes
  · rw [hlog]
    exact hm.ordered
  · rw [hlog, hhub]
    exact fun e he => (hm.past e he).trans hwall
  · rw [hlog, hhub]
    exact ⟨site.day wall - 1, by show site.day wall - 1 < site.day wall; omega, rfl⟩

theorem Mirrors.step {w : World} (hm : Mirrors site env w) (hday : Monotone site.day) {e : Event F}
    (ho : Onward w e) : Mirrors site env (w.step site env e) := by
  cases e with
  | op op => exact hm.op hday ho
  | restart now wall => exact hm.restart hday ho

end

end Moot
