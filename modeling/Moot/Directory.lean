import Moot.Frames
import Moot.Transcript

/-!
# The transcript directory

One file a day, named by the day (`_path_for`); a record is appended to the file of
the day of the wall clock, and a hub that starts reads the `msg` records of yesterday
and of today (`Transcript.recent_msgs`).

Proved here: `recentMsgs_written`, what is read back are the `msg` records that were
appended on the two days, in their order, field for field.
-/

namespace Moot
open Py PyJson Proto

/-- The place a hub runs in: the calendar day of a time, and how a time is written in JSON and read
back. -/
structure Site (F : Type) where
  day : Rat → Int
  num : Rat → Json F
  time : Json F → Rat
  num_wf : ∀ t, (num t).Wf
  num_clean : ∀ t, (num t).Clean
  time_num : ∀ t, time (num t) = t

/-! ## Reading a record -/

section
variable {F : Type}

/-- `str(v)`, of a string, a number or a constant. -/
def strOf : Json F → Str
  | .str s => s
  | .int z => intStr z
  | .bool b => if b then str "True" else str "False"
  | _ => str "None"

/-- `bool(v)` -/
def truthy : Json F → Bool
  | .null => false
  | .bool b => b
  | .int z => z ≠ 0
  | .float _ => true
  | .str s => s ≠ []
  | .arr xs => !xs.isEmpty
  | .obj kvs => !kvs.isEmpty

/-- `int(v) if isinstance(v, int)`, for an id. -/
def idOf : Json F → Nat
  | .int z => z.toNat
  | .bool b => b.toNat
  | _ => 0

/-- The fields of a `msg` record, with the defaults of `_msg_from_record`. -/
def recordOfFields (site : Site F) (rec : Obj F) : MsgRec where
  id := ((field rec "id").map idOf).getD 0
  sender := ((field rec "from").map strOf).getD (str "?")
  addressee := ((field rec "to").map strOf).getD (str "*")
  kind := ((field rec "kind").map strOf).getD (str "note")
  text := ((field rec "text").map strOf).getD []
  ts := ((field rec "ts").map site.time).getD 0
  priv := ((field rec "private").map truthy).getD false

/-- `r.get("type") == "msg"` -/
def isMsg (rec : Obj F) : Bool :=
  match field rec "type" with
  | some (.str s) => s = str "msg"
  | _ => false

/-- `None` is the `AttributeError` of a record that is no object. -/
def asObj : Json F → Option (Obj F)
  | .obj kvs => some kvs
  | _ => none

/-- The fields of a record as it is written. -/
def Record.fields (num : Rat → Json F) (r : Record) : Obj F := (asObj (r.toJson num)).getD []

theorem Record.toJson_eq (num : Rat → Json F) (r : Record) : r.toJson num = .obj (r.fields num) := by
  cases r <;> rfl

variable (site : Site F)

/-- The message record that a record is. -/
def Record.msg? : Record → Option MsgRec
  | .msg _ r => some r
  | _ => none

theorem isMsg_fields (r : Record) : isMsg (r.fields site.num) = r.msg?.isSome := by
  cases r <;> rfl

theorem recordOfFields_msg (round : Nat) (r : MsgRec) :
    recordOfFields site ((Record.msg round r).fields site.num) = r := by
  obtain ⟨id, sender, addressee, kind, text, ts, priv⟩ := r
  have htime : recordOfFields site ((Record.msg round ⟨id, sender, addressee, kind, text, ts,
      priv⟩).fields site.num) = ⟨id, sender, addressee, kind, text, site.time (site.num ts), priv⟩ := by
    cases priv <;> rfl
  rw [htime, site.time_num]

theorem wf_obj {kvs : Obj F} (keys : List String) (hkeys : kvs.map Prod.fst = keys.map str)
    (hnodup : (keys.map str).Nodup) (hv : ∀ kv ∈ kvs, kv.2.Wf) : (Json.obj kvs).Wf := by
  refine ⟨hkeys ▸ hnodup, ?_⟩
  clear hkeys hnodup
  induction kvs with
  | nil => trivial
  | cons kv kvs ih =>
    exact ⟨hv kv (List.mem_cons_self ..), ih fun kv' h => hv kv' (List.mem_cons_of_mem _ h)⟩

theorem wf_nats (ns : List Nat) : (Json.arr (ns.map jnat) : Json F).Wf := by
  show WfItems _
  induction ns with
  | nil => trivial
  | cons n ns ih => exact ⟨trivial, ih⟩

/-- No record has a key twice. -/
theorem Record.wf_toJson (r : Record) : (r.toJson site.num).Wf := by
  have hnum := site.num_wf
  cases r with
  | msg round r =>
    obtain ⟨id, sender, addressee, kind, text, ts, priv⟩ := r
    cases priv
    · refine wf_obj ["type", "id", "round", "from", "to", "kind", "text", "ts"] rfl (by decide) ?_
      simp [fieldIf, jstr, jnat, Json.Wf, hnum]
    · refine wf_obj ["type", "id", "round", "from", "to", "kind", "text", "ts", "private"] rfl
        (by decide) ?_
      simp [fieldIf, jstr, jnat, Json.Wf, hnum]
  | deliver =>
    refine wf_obj ["type", "to", "round", "msg_ids", "overheard", "ts"] rfl (by decide) ?_
    have hnats : ∀ ns : List Nat, (Json.arr (ns.map jnat) : Json F).Wf := wf_nats
    simp [hnats, jstr, hnum]
    simp [jnat, Json.Wf]
  | event e ts =>
    have hvalues : ∀ kv ∈ (Record.event e ts).fields site.num, kv.2.Wf := by
      cases e with
      | rejected name code addressee kind bytes retryAfter priv =>
        cases retryAfter <;> cases priv <;>
          simp [Record.fields, asObj, Record.toJson, HubEvent.extra, fieldIf, jstr, jnat, Json.Wf, hnum]
      | _ => simp [Record.fields, asObj, Record.toJson, HubEvent.extra, jstr, jnat, Json.Wf, hnum]
    cases e with
    | rejected name code addressee kind bytes retryAfter priv =>
      cases retryAfter with
      | none =>
        cases priv
        · exact wf_obj ["type", "event", "ts", "name", "code", "to", "kind", "bytes"] rfl (by decide)
            hvalues
        · exact wf_obj ["type", "event", "ts", "name", "code", "to", "kind", "bytes", "private"] rfl
            (by decide) hvalues
      | some r =>
        cases priv
        · exact wf_obj ["type", "event", "ts", "name", "code", "to", "kind", "bytes", "retry_after"]
            rfl (by decide) hvalues
        · exact wf_obj ["type", "event", "ts", "name", "code", "to", "kind", "bytes", "retry_after",
            "private"] rfl (by decide) hvalues
    | sessionDone => exact wf_obj ["type", "event", "ts", "round"] rfl (by decide) hvalues
    | roundLimit => exact wf_obj ["type", "event", "ts", "round", "max_rounds"] rfl (by decide) hvalues
    | frozen => exact wf_obj ["type", "event", "ts", "round"] rfl (by decide) hvalues
    | resumed => exact wf_obj ["type", "event", "ts", "round", "max_rounds"] rfl (by decide) hvalues
    | reset =>
      exact wf_obj ["type", "event", "ts", "round", "from_round", "max_rounds"] rfl (by decide) hvalues
    | muted => exact wf_obj ["type", "event", "ts"] rfl (by decide) hvalues
    | unmuted => exact wf_obj ["type", "event", "ts"] rfl (by decide) hvalues
    | goalSet => exact wf_obj ["type", "event", "ts", "text"] rfl (by decide) hvalues
    | peerJoined =>
      exact wf_obj ["type", "event", "ts", "name", "kind", "role"] rfl (by decide) hvalues
    | peerLeft => exact wf_obj ["type", "event", "ts", "name"] rfl (by decide) hvalues
    | stall => exact wf_obj ["type", "event", "ts", "detail"] rfl (by decide) hvalues
    | blocked => exact wf_obj ["type", "event", "ts", "name", "detail"] rfl (by decide) hvalues
    | quorum => exact wf_obj ["type", "event", "ts", "detail"] rfl (by decide) hvalues
  | roomDeclared =>
    refine wf_obj ["type", "event", "room", "name", "ts"] rfl (by decide) ?_
    simp [jstr, Json.Wf, hnum]
  | freezeWithoutObserver =>
    refine wf_obj ["type", "event", "ts"] rfl (by decide) ?_
    simp [jstr, Json.Wf, hnum]

theorem mapM_asObj (rs : List Record) :
    (rs.map (·.toJson site.num)).mapM asObj = some (rs.map (·.fields site.num)) := by
  induction rs with
  | nil => rfl
  | cons r rs ih =>
    rw [List.map_cons, List.mapM_cons, ih, r.toJson_eq]
    rfl

theorem filter_isMsg (rs : List Record) :
    ((rs.map (·.fields site.num)).filter isMsg).map (recordOfFields site) =
      rs.filterMap Record.msg? := by
  induction rs with
  | nil => rfl
  | cons r rs ih =>
    cases r with
    | msg round r =>
      have hmsg : isMsg ((Record.msg round r).fields site.num) = true := isMsg_fields site (.msg round r)
      rw [List.map_cons, List.filter_cons_of_pos hmsg, List.map_cons, ih, recordOfFields_msg]
      rfl
    | _ => exact ih

/-- The strings of a message record encode. -/
def MsgRec.Encodes (r : MsgRec) : Prop :=
  Py.Clean r.sender ∧ Py.Clean r.addressee ∧ Py.Clean r.kind ∧ Py.Clean r.text

instance (r : MsgRec) : Decidable r.Encodes := inferInstanceAs (Decidable (_ ∧ _))

/-- The line of the record encodes. -/
def Record.Writable (r : Record) : Prop := (r.toJson site.num).Clean

theorem writable_msg (round : Nat) (r : MsgRec) :
    (Record.msg round r).Writable site ↔ r.Encodes := by
  have hnum := site.num_clean r.ts
  have hkeys : ∀ k : String, Py.Clean (str k) := clean_str
  obtain ⟨id, sender, addressee, kind, text, ts, priv⟩ := r
  cases priv <;>
    simp only [Record.Writable, Json.Clean, Record.toJson, fieldIf, if_true, Bool.false_eq_true,
      if_false, List.append_nil, List.cons_append, List.nil_append, Json.All, AllFields, jstr, jnat,
      hkeys, show (site.num ts).All Py.Clean from hnum, MsgRec.Encodes, true_and, and_true]

/-! ## Files -/

variable [PyFloat F]

/-- The day files, under the number of their day. -/
abbrev Directory := Int → Option ByteArray

namespace Directory

/-- `append`: the file of the day is opened, and holds the line as well if the line encodes. -/
def append (d : Directory) (wall : Rat) (r : Record) : Directory :=
  let file := (d (site.day wall)).getD ByteArray.empty
  Function.update d (site.day wall)
    (some ((Transcript.append file (r.toJson site.num)).getD file))

/-- `read_day` -/
def readDay (d : Directory) (day : Int) : Option (List (Json F)) :=
  (Transcript.readDay (d day)).map Prod.fst

/-- `recent_msgs` -/
def recentMsgs (d : Directory) (wall : Rat) : Option (List (Obj F)) := do
  let yesterday ← d.readDay (site.day wall - 1)
  let today ← d.readDay (site.day wall)
  let records ← (yesterday ++ today).mapM asObj
  return records.filter isMsg

/-- The directory after some appends, from an empty one. -/
def written (es : List (Rat × Record)) : Directory :=
  es.foldl (fun d e => d.append site e.1 e.2) fun _ => none

end Directory

instance (r : Record) : Decidable (r.Writable site) :=
  decidable_of_iff _ (clean_dumps true (r.toJson site.num))

/-- The records that were written on a day. -/
def onDay (es : List (Rat × Record)) (day : Int) : List Record :=
  (es.filter fun e => site.day e.1 = day ∧ e.2.Writable site).map Prod.snd

/-- The line of a record. -/
def Record.toLine {r : Record} (h : r.Writable site) : Transcript.Record F where
  fields := r.fields site.num
  wf := by
    rw [← Record.toJson_eq]
    exact r.wf_toJson site
  clean := by
    rw [← Record.toJson_eq]
    exact h

theorem append_writable {r : Record} (h : r.Writable site) (file : ByteArray) :
    Transcript.append file (r.toJson site.num) =
      some (file ++ utf8 (Record.toLine site h).text) := by
  have hjson : r.toJson site.num = (Record.toLine site h).json := r.toJson_eq site.num
  rw [hjson, Transcript.append_record]

theorem append_unwritable {r : Record} (h : ¬ r.Writable site) (file : ByteArray) :
    Transcript.append file (r.toJson site.num) = none := by
  rw [Transcript.append, Option.map_eq_none_iff, Option.eq_none_iff_forall_not_mem]
  intro bytes hbytes
  refine h ((clean_dumps true _).mp ?_)
  have hclean := (encode?_isSome_iff _).mp (Option.isSome_iff_exists.mpr ⟨bytes, hbytes⟩)
  exact ((clean_append _ _).mp hclean).1

/-- **A day file** holds the lines of the records that were written that day. -/
theorem file_written (es : List (Rat × Record)) (day : Int) :
    ∃ ls : List (Transcript.Record F),
      ls.map Transcript.Record.json = (onDay site es day).map (·.toJson site.num) ∧
      ((Directory.written site es) day).getD ByteArray.empty =
        utf8 (ls.flatMap Transcript.Record.text) ∧
      ((Directory.written site es) day = none → ls = []) := by
  induction es using List.reverseRecOn with
  | nil => exact ⟨[], rfl, by simp [Directory.written], fun _ => rfl⟩
  | append_singleton es e ih =>
    obtain ⟨ls, hjson, hfile, hnone⟩ := ih
    have hstep : Directory.written site (es ++ [e]) =
        (Directory.written site es).append site e.1 e.2 := by
      rw [Directory.written, List.foldl_append]
      rfl
    have hday : onDay site (es ++ [e]) day = onDay site es day ++
        if site.day e.1 = day ∧ e.2.Writable site then [e.2] else [] := by
      rw [onDay, List.filter_append, List.map_append]
      congr 1
      by_cases h : site.day e.1 = day ∧ e.2.Writable site
      · rw [if_pos h, List.filter_singleton, decide_eq_true h]
        rfl
      · rw [if_neg h, List.filter_singleton, decide_eq_false h]
        rfl
    rw [hstep, hday, Directory.append]
    by_cases hd : site.day e.1 = day
    · subst hd
      rw [Function.update_self, Option.getD_some, hfile]
      by_cases hw : e.2.Writable site
      · rw [if_pos ⟨rfl, hw⟩, append_writable site hw, Option.getD_some]
        refine ⟨ls ++ [e.2.toLine site hw], ?_, ?_, nofun⟩
        · rw [List.map_append, List.map_append, hjson]
          congr 1
          exact congrArg (fun j => [j]) (Record.toJson_eq site.num e.2).symm
        · rw [List.flatMap_append, utf8_append]
          simp
      · rw [if_neg fun h => hw h.2, append_unwritable site hw, Option.getD_none]
        exact ⟨ls, by rw [List.append_nil, hjson], rfl, nofun⟩
    · rw [Function.update_of_ne (Ne.symm hd), if_neg fun h => hd h.1, List.append_nil]
      exact ⟨ls, hjson, hfile, hnone⟩

theorem readDay_written (es : List (Rat × Record)) (day : Int) :
    (Directory.written site es).readDay day = some ((onDay site es day).map (·.toJson site.num)) := by
  obtain ⟨ls, hjson, hfile, hnone⟩ := file_written site es day
  rw [Directory.readDay, ← hjson]
  cases hd : (Directory.written site es) day with
  | none =>
    rw [hnone hd]
    rfl
  | some bytes =>
    have hret : '\r' ∉ ls.flatMap Transcript.Record.text := by
      rw [List.mem_flatMap]
      rintro ⟨l, -, hl⟩
      exact l.return_notMem hl
    have hlines := Transcript.records_texts ls []
    rw [List.append_nil, Transcript.records_nil, List.append_nil] at hlines
    rw [hd, Option.getD_some] at hfile
    rw [hfile, Transcript.readDay_eq, readText?, decode?_utf8, Option.map_some,
      universalNewlines_of_notMem hret, Option.map_some, hlines]

/-- **What is read back**: the `msg` records that were written yesterday and today, in order. -/
theorem recentMsgs_written (es : List (Rat × Record)) (wall : Rat) :
    ((Directory.written site es).recentMsgs site wall).map (·.map (recordOfFields site)) =
      some ((onDay site es (site.day wall - 1) ++ onDay site es (site.day wall)).filterMap
        Record.msg?) := by
  rw [Directory.recentMsgs, readDay_written, readDay_written]
  simp only [Option.bind_eq_bind, Option.bind_some, ← List.map_append]
  rw [mapM_asObj, Option.bind_some]
  exact congrArg some (filter_isMsg site _)

/-- The messages that were written on a day, of those that were recorded. -/
def messagesOn (said : List (Rat × MsgRec)) (day : Int) : List MsgRec :=
  (said.filter fun e => site.day e.1 = day ∧ e.2.Encodes).map Prod.snd

theorem messagesOn_eq (es : List (Rat × Record)) (day : Int) :
    (onDay site es day).filterMap Record.msg? =
      messagesOn site (es.filterMap fun e => e.2.msg?.map fun r => (e.1, r)) day := by
  rw [onDay, messagesOn, ← List.filterMap_eq_filter, ← List.filterMap_eq_filter, List.map_filterMap,
    List.map_filterMap, List.filterMap_filterMap, List.filterMap_filterMap]
  refine List.filterMap_congr fun e _ => ?_
  obtain ⟨wall, r⟩ := e
  cases r with
  | msg round r =>
    have hiff : (site.day wall = day ∧ (Record.msg round r).Writable site) ↔
        (site.day wall = day ∧ r.Encodes) := and_congr_right fun _ => writable_msg site round r
    by_cases h : site.day wall = day ∧ r.Encodes
    · simp [Option.guard, Record.msg?, h, hiff.mpr h]
    · simp [Option.guard, Record.msg?, h, mt hiff.mp h]
  | _ => simp [Option.guard, Record.msg?]

end

end Moot
