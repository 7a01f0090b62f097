import Moot.Hub.Cargo
import Moot.Hub.Speech

/-!
# Registered names

The grammar of a name is checked once, in `validate_hello`, by a pattern whose `$`
also matches before a final newline.  A name that does not end in a newline is
admitted exactly if it is a protocol name (`hello_name_iff`).

Proved here: `protocol_names`, in a run without such hellos all names are protocol
names, and so is every sender on the wire and on the record.
-/

namespace Moot
open Py Proto

/-- A protocol name: the grammar, on the whole string, and not reserved. -/
def ProtocolName (s : Str) : Prop := isProtocolName s = true ∧ casefold s ∉ reservedNames

instance (s : Str) : Decidable (ProtocolName s) := inferInstanceAs (Decidable (_ ∧ _))

/-- The string ends in a newline. -/
def endsInNewline (s : Str) : Bool := s.getLast? = some (.scalar '\n')

/-- A sender: a protocol name, or the hub itself. -/
def Signed (s : Str) : Prop := s = systemSender ∨ ProtocolName s

/-- **The names a hello is admitted with.** -/
theorem hello_name_iff (s : Str) : (casefold s ∉ reservedNames ∧ nameRe s = true) ↔
    ProtocolName s ∨ ∃ t, s = t ++ [.scalar '\n'] ∧ isProtocolName t = true := by
  constructor
  · rintro ⟨hres, hre⟩
    simp only [nameRe, Bool.or_eq_true, Bool.and_eq_true, decide_eq_true_eq] at hre
    rcases hre with hre | ⟨hlast, hre⟩
    · exact Or.inl ⟨hre, hres⟩
    · obtain ⟨t, rfl⟩ := List.getLast?_eq_some_iff.mp hlast
      rw [List.dropLast_concat] at hre
      exact Or.inr ⟨t, rfl, hre⟩
  · rintro (⟨hre, hres⟩ | ⟨t, rfl, hre⟩)
    · exact ⟨hres, by simp [nameRe, hre]⟩
    · refine ⟨fun hmem => ?_, by simp [nameRe, hre]⟩
      -- no reserved name ends in a newline
      have hlast : ∀ r ∈ reservedNames, r.getLast? ≠ some (.scalar '\n') := by decide
      refine hlast _ hmem ?_
      rw [casefold, List.map_append, List.map_singleton, List.getLast?_concat]
      rfl

theorem protocolName_of_hello (f : Hello) (hf : endsInNewline f.name = false) :
    ProtocolName f.name := by
  rcases (hello_name_iff f.name).mp f.name_ok with h | ⟨t, ht, -⟩
  · exact h
  · rw [endsInNewline, ht, List.getLast?_concat] at hf
    simp at hf

namespace Hub

/-- No hello names itself with a final newline. -/
def plainNames : Filter := fun _ _ f => ∀ g : Hello, f = .hello g → endsInNewline g.name = false

theorem sources_names : Sources plainNames ProtocolName fun m => Signed m.sender where
  hello f hA := protocolName_of_hello f (hA f rfl)
  tagged _ _ h := h
  recorded _ h := h
  said _ _ _ h _ := Or.inr h
  goal _ _ _ _ _ _ _ := Or.inl rfl
  note _ _ _ _ _ _ := Or.inl rfl
  dropped _ _ _ := Or.inl rfl
  omitted _ := Or.inl rfl

section
variable {env : Env} {h h' : Hub}

/-! ## Runs -/

/-- Names are protocol names, in the registry, in what is kept and in the log. -/
structure Proper (h : Hub) : Prop where
  carries : Carries ProtocolName (fun m => Signed m.sender) h
  signed : ∀ e ∈ h.wire.log, ∀ s ∈ e.senders, Signed s

theorem Proper.stroke (hp : Proper h) (hw : h.Wf) (hs : Stroke env plainNames Set.univ h h') :
    Proper h' := by
  have hc := hp.carries.stroke sources_names hw hs
  refine ⟨hc, fun e he s hse => ?_⟩
  obtain ⟨es, hes, hmentions⟩ := hs.mentions (P := Signed) hw
    (fun n p hn => Or.inr (hp.carries.names n p (box?_of_get? hn)))
    fun f hA => Or.inr (protocolName_of_hello f (hA f rfl))
  have hmem := he
  rw [hes] at hmem
  rcases List.mem_append.mp hmem with hmem | hmem
  · exact hp.signed e hmem s hse
  · have hfits := hmentions e hmem
    unfold Effect.Fits at hfits
    split at hfits
    · next n _ _ _ ms _ =>
      obtain ⟨m, hm, rfl⟩ := List.mem_map.mp hse
      have hframe : ms ∈ deliveries n h'.wire.log :=
        List.mem_filterMap.mpr ⟨_, he, by simp [Effect.delivery?]⟩
      exact hc.frames n ms hframe m hm
    · exact hfits s hse

/-- The registry does not depend on what the transcript holds. -/
theorem sources_registry : Sources plainNames ProtocolName fun _ => True where
  hello f hA := protocolName_of_hello f (hA f rfl)
  tagged _ _ _ := trivial
  recorded _ _ := trivial
  said _ _ _ _ _ := trivial
  goal _ _ _ _ _ _ _ := trivial
  note _ _ _ _ _ _ := trivial
  dropped _ _ _ := trivial
  omitted _ := trivial

/-! ## The other direction -/

/-- A hello frame with the name `s`. -/
def withName {F : Type} (frame : Obj F) (s : Str) : Obj F := (str "name", .str s) :: frame

theorem field_withName {F : Type} (frame : Obj F) (s : Str) {key : String}
    (hk : str key ≠ str "name") : field (withName frame s) key = field frame key := by
  have hb : (str key == str "name") = false := by simpa using hk
  simp only [field, withName, List.lookup_cons, hb]

theorem field_withName_name {F : Type} (frame : Obj F) (s : Str) :
    field (withName frame s) "name" = some (.str s) := by
  simp [field, withName]

variable {F : Type} [PyJson.PyFloat F]

/-- The name of a hello is refused by itself. -/
theorem validateHello_withName {frame : Obj F} {s s' : Str} {isPrintable : Char → Bool} {f' : Hello}
    (hv : validateHello isPrintable (withName frame s') = .ok f') (hs : ProtocolName s) :
    ∃ f, validateHello isPrintable (withName frame s) = .ok f ∧ f.name = s := by
  have hname : ¬ (casefold s ∈ reservedNames ∨ nameRe s = false) := by
    rw [not_or, Bool.not_eq_false]
    exact (hello_name_iff s).mpr (Or.inl hs)
  simp only [validateHello, reqInt, reqStr, optStr, malformed, field_withName_name,
    field_withName frame _ (show str "proto" ≠ str "name" by decide),
    field_withName frame _ (show str "kind" ≠ str "name" by decide),
    field_withName frame _ (show str "room" ≠ str "name" by decide),
    field_withName frame _ (show str "caps" ≠ str "name" by decide),
    field_withName frame _ (show str "role" ≠ str "name" by decide)] at hv ⊢
  obtain ⟨proto, hproto, hv⟩ := bind_ok hv
  rw [hproto]
  split_ifs at hv with hone
  obtain ⟨t, ht, hv⟩ := bind_ok hv
  cases ht
  split_ifs at hv with hbad
  obtain ⟨kind, hkind, hv⟩ := bind_ok hv
  rw [hkind]
  split_ifs at hv with hbadKind
  obtain ⟨room, hroom, hv⟩ := bind_ok hv
  obtain ⟨caps, hcaps, hv⟩ := bind_ok hv
  obtain ⟨role, hrole, -⟩ := bind_ok hv
  rw [hroom, hcaps, hrole]
  simp only [bind, Except.bind, if_neg hone, dif_neg hname, dif_neg hbadKind]
  exact ⟨_, rfl, rfl⟩

/-- **No name of the grammar is refused.** -/
theorem validate_withName {frame : Obj F} {s s' : Str} {isPrintable : Char → Bool} {f' : Hello}
    (hv : validate isPrintable (withName frame s') = .ok (.hello f')) (hs : ProtocolName s) :
    ∃ f, validate isPrintable (withName frame s) = .ok (.hello f) ∧ f.name = s := by
  obtain ⟨ht, hv⟩ := validate_hello_iff.mp hv
  obtain ⟨f, hf, hname⟩ := validateHello_withName hv hs
  have ht' : field (withName frame s) "t" = some (.str (str "hello")) := by
    rw [field_withName frame s (by decide), ← field_withName frame s' (by decide)]
    exact ht
  exact ⟨f, validate_hello_iff.mpr ⟨ht', hf⟩, hname⟩

variable (env) in
/-- **Names.**  In a run in which no admissible hello has a name that ends in a newline, every
registered name is a protocol name; if the transcript the hub starts from gives such senders only,
so does everything the hub sends and records.  A hello that some name makes admissible is
admissible with every protocol name. -/
theorem protocol_names (records : List MsgRec) (now wall : Rat) {ops : List (Op F)}
    (hplain : Run.Always (Hub.step env) (Allowed env plainNames) (init env records now wall) ops) :
    let h := Run.after (Hub.step env) (init env records now wall) ops
    (∀ n p, h.get? n = some p ∨ h.dead.get? n = some p → ProtocolName n) ∧
      ((∀ r ∈ records, Signed r.sender) → ∀ e ∈ h.wire.log, ∀ s ∈ e.senders, Signed s) ∧
      ∀ (frame : Obj F) (s s' : Str) (f' : Hello),
        validate env.isPrintable (withName frame s') = .ok (.hello f') → ProtocolName s →
          ∃ f, validate env.isPrintable (withName frame s) = .ok (.hello f) ∧ f.name = s := by
  intro h
  have hwf : (init env records now wall).Wf := wf_init env records now wall
  refine ⟨?_, fun hrecords => ?_, fun _ _ _ _ => validate_withName⟩
  · have hc : Carries ProtocolName (fun _ => True) h :=
      (Carries.handled env sources_registry).run (fun _ _ hc => hc.pruneDead)
        (fun _ _ _ hc => ⟨hc.names, hc.mail, hc.recent, hc.frames⟩) hwf
        (carries_init (fun _ _ => trivial) now wall) hplain
    have hw : h.Wf := Run.preserved (fun _ op hw => hw.step env op) hwf ops
    rintro n p (hp | hp)
    · exact hc.names n p (box?_of_get? hp)
    · cases hlive : h.get? n with
      | some q => exact hc.names n q (box?_of_get? hlive)
      | none => exact hc.names n p (by rw [box?_of_none hlive, hp])
  · have hproper : Proper h :=
      (Strokes.rule fun _ _ hw hs hp => Proper.stroke hp hw hs).run
        (fun _ _ hp => ⟨hp.carries.pruneDead, hp.signed⟩)
        (fun _ _ _ hp => ⟨⟨hp.carries.names, hp.carries.mail, hp.carries.recent,
          hp.carries.frames⟩, hp.signed⟩) hwf
        ⟨carries_init (fun r hr => hrecords r hr) now wall, fun _ he => nomatch he⟩ hplain
    exact hproper.signed

/-- A hello with a protocol name meets the condition. -/
theorem allowed_named {h : Hub} {c : ClientId} {frame : Obj F} {s : Str}
    (hname : field frame "name" = some (.str s)) (hs : endsInNewline s = false) :
    Allowed env plainNames h (.handle c frame) := by
  intro c' frame' f heq hv
  cases heq
  cases f with
  | hello f =>
    intro g hg
    cases hg
    obtain ⟨-, hv⟩ := validate_hello_iff.mp hv
    rw [(validateHello_fields hv).1, Option.some.injEq, PyJson.Json.str.injEq] at hname
    rw [hname]
    exact hs
  | _ => exact fun _ _ g hg => (nomatch hg)

/-- The one hello of bob. -/
def oneHello : List (Op PyJson.Token) := [.handle 0 (helloFrame "bob" "agent" [])]

theorem protocol_names_oneHello :
    let h := Run.after (Hub.step .still) (init .still [] 0 0) oneHello
    h.participants.keys = [str "bob"] ∧
      (∀ n p, h.get? n = some p ∨ h.dead.get? n = some p → ProtocolName n) ∧
      ((∀ r ∈ ([] : List MsgRec), Signed r.sender) → ∀ e ∈ h.wire.log, ∀ s ∈ e.senders, Signed s) ∧
      ∀ (frame : Obj PyJson.Token) (s s' : Str) (f' : Hello),
        validate Env.still.isPrintable (withName frame s') = .ok (.hello f') → ProtocolName s →
          ∃ f, validate Env.still.isPrintable (withName frame s) = .ok (.hello f) ∧ f.name = s :=
  ⟨by decide +kernel, protocol_names .still [] 0 0
    ⟨allowed_named (s := str "bob") rfl (by decide), trivial⟩⟩

/-- A hello whose name ends in a newline is registered under it. -/
theorem newline_is_registered :
    ¬ ∀ (ops : List (Op PyJson.Token)) (n : Str) (p : Participant),
      (Run.after (Hub.step .still) (init .still [] 0 0) ops).get? n = some p → ProtocolName n := by
  intro hall
  have hthere : ((Run.after (Hub.step .still) (init .still [] 0 0)
      [.handle 0 (helloFrame "bob\n" "agent" [])]).get? (str "bob\n")).isSome = true := by
    decide +kernel
  obtain ⟨p, hp⟩ := Option.isSome_iff_exists.mp hthere
  exact absurd (hall _ _ p hp) (by decide)

end

end Hub

end Moot
