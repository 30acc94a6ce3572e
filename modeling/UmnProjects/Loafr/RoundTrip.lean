import UmnProjects.Loafr.LogfileWriter

/-!
What the reader of log files makes of the rows the writer writes: of one event, and of a
whole log file.
-/
namespace UmnProjects.Loafr

open Text Loops Objects

/-! ### Rows -/

def itemText (item : DataItem) : Text := item.dataName ++ '=' :: item.value

theorem rowText_eq (time eventSource eventName : Text) (dataItems : List DataItem) :
    rowText time eventSource eventName dataItems =
      time ++ (eventSource :: eventName :: dataItems.map itemText).flatMap
        fun part => ',' :: part := by
  have hitems (row : Text) (dataItems : List DataItem) :
      dataItems.foldl (fun row item =>
          row ++ ",".toList ++ item.dataName ++ "=".toList ++ item.value) row =
        row ++ (dataItems.map itemText).flatMap fun part => ',' :: part := by
    induction dataItems generalizing row with
    | nil => simp
    | cons item dataItems ih =>
        rw [List.foldl_cons, ih]
        simp [itemText]
  rw [rowText, hitems]
  simp

/-- The reader finds an item in its text unless the value is empty. -/
theorem parseDataItem_itemText {item : DataItem} (hname : '=' ∉ item.dataName)
    (hvalue : '=' ∉ item.value) : parseDataItem (itemText item) = some item ↔ item.value ≠ [] := by
  have hmem : '=' ∈ itemText item := by simp [itemText]
  have hparts : (itemText item).splitOn '=' = [item.dataName] ++ [item.value] := by
    rw [itemText, List.splitOn_append_cons_self, List.splitOn_eq_singleton hname,
      List.splitOn_eq_singleton hvalue]
  have hsplit : split "=".toList (itemText item) =
      ([item.dataName] ++ [item.value]).rdropWhile List.isEmpty := by
    rw [← hparts]
    exact split_of_mem hmem
  rw [parseDataItem, hsplit]
  by_cases hempty : item.value = []
  · have hdropped : ([item.dataName] ++ [item.value]).rdropWhile List.isEmpty =
        [item.dataName].rdropWhile List.isEmpty :=
      List.rdropWhile_concat_pos _ _ _ (by simp [hempty])
    have hlength := (List.rdropWhile_prefix List.isEmpty [item.dataName]).length_le
    rw [hdropped]
    generalize [item.dataName].rdropWhile List.isEmpty = parts at hlength
    cases parts with
    | nil => simp [hempty]
    | cons part parts =>
        have hnil : parts = [] := by simpa using hlength
        simp [hnil, hempty]
  · rw [List.rdropWhile_concat_neg _ _ _ (by simp [hempty])]
    simp [hempty]

/-- The texts an event is made of. -/
def Event.fields (event : Event) : List Text :=
  event.time :: event.eventSource :: event.eventName ::
    (event.dataItems.getD []).flatMap fun item => [item.dataName, item.value]

section Rows

variable {time eventSource eventName : Text} {dataItems : List DataItem}

theorem forall_mem_fields (P : Text → Prop) :
    (∀ field ∈ Event.fields ⟨time, eventSource, eventName, some dataItems⟩, P field) ↔
      P time ∧ P eventSource ∧ P eventName ∧
        ∀ item ∈ dataItems, P item.dataName ∧ P item.value := by
  have hitems : (∀ field ∈ dataItems.flatMap fun item => [item.dataName, item.value], P field) ↔
      ∀ item ∈ dataItems, P item.dataName ∧ P item.value := by
    rw [List.forall_mem_flatMap]
    refine forall₂_congr fun item _ => ?_
    simp
  rw [Event.fields, List.forall_mem_cons, List.forall_mem_cons, List.forall_mem_cons,
    Option.getD_some, hitems]

theorem split_rowText
    (hfields : ∀ field ∈ Event.fields ⟨time, eventSource, eventName, some dataItems⟩, ',' ∉ field)
    (hlast : dataItems = [] → eventName ≠ []) :
    split ",".toList (rowText time eventSource eventName dataItems) =
      time :: eventSource :: eventName :: dataItems.map itemText := by
  obtain ⟨htime, hsource, hname, hitems⟩ := (forall_mem_fields fun field => ',' ∉ field).mp hfields
  have hparts : (rowText time eventSource eventName dataItems).splitOn ',' =
      time :: eventSource :: eventName :: dataItems.map itemText := by
    rw [rowText_eq]
    refine Segments.splitOn_joined htime ?_
    refine List.forall_mem_cons.mpr ⟨hsource, List.forall_mem_cons.mpr ⟨hname, ?_⟩⟩
    refine List.forall_mem_map.mpr fun item hitem => ?_
    obtain ⟨hdataName, hvalue⟩ := hitems item hitem
    simp [itemText, hdataName, hvalue]
  rw [← hparts]
  refine split_of_getLast (a := ',') (by simp [rowText_eq]) ?_
  rw [hparts]
  cases dataItems using List.reverseRecOn with
  | nil => simpa using hlast rfl
  | append_singleton items item =>
      simp [itemText, List.getLast?_cons]

/-- An event the reader can have made is read back from its row unless a value is empty. -/
theorem eventOfLine_rowText
    (hfields : ∀ field ∈ Event.fields ⟨time, eventSource, eventName, some dataItems⟩, ',' ∉ field)
    (hitems : ∀ item ∈ dataItems, '=' ∉ item.dataName ∧ '=' ∉ item.value)
    (hlast : dataItems = [] → eventName ≠ []) :
    eventOfLine (rowText time eventSource eventName dataItems) =
        some ⟨time, eventSource, eventName, some dataItems⟩ ↔
      ∀ item ∈ dataItems, item.value ≠ [] := by
  have hread : (dataItems.map itemText).mapM parseDataItem = some dataItems ↔
      ∀ item ∈ dataItems, parseDataItem (itemText item) = some item := by
    rw [mapM_eq_some_iff, List.forall₂_map_left_iff, List.forall₂_same]
  have hvalues : (∀ item ∈ dataItems, parseDataItem (itemText item) = some item) ↔
      ∀ item ∈ dataItems, item.value ≠ [] := by
    refine forall₂_congr fun item hitem => ?_
    exact parseDataItem_itemText (hitems item hitem).1 (hitems item hitem).2
  rw [← hvalues, ← hread, eventOfLine, split_rowText hfields hlast]
  simp [parseEvent]

theorem not_break_rowText
    (hfields : ∀ field ∈ Event.fields ⟨time, eventSource, eventName, some dataItems⟩,
      ∀ c ∈ field, c ≠ '\n' ∧ c ≠ '\r') :
    ∀ c ∈ rowText time eventSource eventName dataItems, c ≠ '\n' ∧ c ≠ '\r' := by
  obtain ⟨htime, hsource, hname, hitems⟩ :=
    (forall_mem_fields fun field => ∀ c ∈ field, c ≠ '\n' ∧ c ≠ '\r').mp hfields
  rw [rowText_eq]
  refine List.forall_mem_append.mpr ⟨htime, List.forall_mem_flatMap.mpr fun part hpart => ?_⟩
  refine List.forall_mem_cons.mpr ⟨by decide, ?_⟩
  revert part
  refine List.forall_mem_cons.mpr ⟨hsource, List.forall_mem_cons.mpr ⟨hname, ?_⟩⟩
  refine List.forall_mem_map.mpr fun item hitem => ?_
  exact List.forall_mem_append.mpr
    ⟨(hitems item hitem).1, List.forall_mem_cons.mpr ⟨by decide, (hitems item hitem).2⟩⟩

end Rows

/-! ### Events of the reader -/

theorem split_of_parseDataItem {text : Text} {item : DataItem}
    (h : parseDataItem text = some item) :
    ∃ parts, split "=".toList text = item.dataName :: item.value :: parts := by
  simp only [parseDataItem] at h
  split at h
  · next dataName value parts hparts =>
      cases h
      exact ⟨parts, hparts⟩
  · cases h

theorem fields_of_parseDataItem {text part : Text} {item : DataItem}
    (h : parseDataItem text = some item) (hpart : part ∈ [item.dataName, item.value]) :
    part.Sublist text ∧ '=' ∉ part := by
  obtain ⟨parts, hsplit⟩ := split_of_parseDataItem h
  have hmem : part ∈ split "=".toList text := by
    rw [hsplit]
    exact (List.sublist_append_left [item.dataName, item.value] parts).subset hpart
  exact ⟨sublist_of_mem_split (a := '=') hmem, not_mem_of_mem_split (a := '=') hmem⟩

theorem eventOfLine_cases {line : Text} {event : Event} (h : eventOfLine line = some event) :
    (∃ time, split ",".toList line = [time] ∧ event = ⟨time, [], [], none⟩) ∨
    (∃ time eventSource eventName texts dataItems,
      split ",".toList line = time :: eventSource :: eventName :: texts ∧
        List.Forall₂ (fun text item => parseDataItem text = some item) texts dataItems ∧
          event = ⟨time, eventSource, eventName, some dataItems⟩) := by
  simp only [eventOfLine, parseEvent] at h
  split at h
  · next time hsplit =>
      cases h
      exact .inl ⟨time, hsplit, rfl⟩
  · next time eventSource eventName texts hsplit =>
      obtain ⟨dataItems, hitems, heq⟩ := Option.map_eq_some_iff.mp h
      exact .inr ⟨time, eventSource, eventName, texts, dataItems, hsplit,
        (mapM_eq_some_iff _ _ _).mp hitems, heq.symm⟩
  · cases h

theorem forall_parsed_iff {P : DataItem → Prop} {texts : List Text} {dataItems : List DataItem}
    (h : List.Forall₂ (fun text item => parseDataItem text = some item) texts dataItems) :
    (∀ item ∈ dataItems, P item) ↔
      ∀ text ∈ texts, ∀ item, parseDataItem text = some item → P item := by
  induction h with
  | nil => simp
  | cons hitem _ ih =>
      rw [List.forall_mem_cons, List.forall_mem_cons, ih, hitem]
      simp

/-- The fields of a read event are parts of its line between commas. -/
theorem fields_of_eventOfLine {line : Text} {event : Event} (h : eventOfLine line = some event) :
    ∀ field ∈ event.fields, field.Sublist line ∧ ',' ∉ field := by
  have hpart (part : Text) (hpart : part ∈ split ",".toList line) :
      part.Sublist line ∧ ',' ∉ part :=
    ⟨sublist_of_mem_split (a := ',') hpart, not_mem_of_mem_split (a := ',') hpart⟩
  obtain ⟨time, hsplit, rfl⟩ |
    ⟨time, eventSource, eventName, texts, dataItems, hsplit, hitems, rfl⟩ := eventOfLine_cases h
  · rw [hsplit] at hpart
    intro field hfield
    have hcases : field = time ∨ field = [] := by simpa [Event.fields] using hfield
    obtain rfl | rfl := hcases
    · exact hpart _ List.mem_cons_self
    · exact ⟨List.nil_sublist _, List.not_mem_nil⟩
  · rw [hsplit] at hpart
    refine (forall_mem_fields fun field => field.Sublist line ∧ ',' ∉ field).mpr ?_
    refine ⟨hpart _ (by simp), hpart _ (by simp), hpart _ (by simp), ?_⟩
    refine (forall_parsed_iff hitems).mpr fun text htext item hitem => ?_
    obtain ⟨hsub, hsep⟩ := hpart text (by simp [htext])
    have hfield {field : Text} (hfield : field ∈ [item.dataName, item.value]) :
        field.Sublist line ∧ ',' ∉ field := by
      have hsublist := (fields_of_parseDataItem hitem hfield).1
      exact ⟨hsublist.trans hsub, fun hmem => hsep (hsublist.subset hmem)⟩
    exact ⟨hfield (by simp), hfield (by simp)⟩

/-! ### Writing an event back -/

/-- The event can be written to an empty file, and is the event read from it. -/
def WritesBack (event : Event) : Prop :=
  ∀ disk path, disk.content path = some [] → ∃ disk',
    LogfileWriter.writeEntry (fun _ => true) (some event) ⟨some path⟩ disk = (.ok true, disk') ∧
      (LogfileReader.getEvent ⟨some (disk'.file path), none⟩).1 = some event

theorem getEvent_new (file : File) :
    (LogfileReader.getEvent ⟨some file, none⟩).1 = (lines file.content).head?.bind eventOfLine := by
  rw [LogfileReader.getEvent_of_some rfl, Option.getD_none, LogfileReader.initializeReader]
  cases lines file.content with
  | nil => rfl
  | cons line rest => rfl

theorem writesBack_iff {time eventSource eventName : Text} {dataItems : List DataItem}
    (hfields : ∀ field ∈ Event.fields ⟨time, eventSource, eventName, some dataItems⟩,
      ∀ c ∈ field, c ≠ '\n' ∧ c ≠ '\r') :
    WritesBack ⟨time, eventSource, eventName, some dataItems⟩ ↔
      eventOfLine (rowText time eventSource eventName dataItems) =
        some ⟨time, eventSource, eventName, some dataItems⟩ := by
  have hlines := lines_append_cons [] (not_break_rowText hfields)
  let written (disk : Disk) (path : Text) : Disk :=
    disk.append path (rowText time eventSource eventName dataItems ++ "\n".toList)
  have hread (disk : Disk) (path : Text) (hempty : disk.content path = some []) :
      (LogfileReader.getEvent ⟨some ((written disk path).file path), none⟩).1 =
        eventOfLine (rowText time eventSource eventName dataItems) := by
    rw [getEvent_new, Disk.content_file_append _ hempty, List.nil_append]
    exact congrArg (fun rows => rows.head?.bind eventOfLine) hlines
  constructor
  · intro h
    obtain ⟨disk', hwrite, hget⟩ := h ⟨[([], [])], []⟩ [] rfl
    have hdisk : written ⟨[([], [])], []⟩ [] = disk' := congrArg Prod.snd hwrite
    rw [← hdisk, hread _ _ rfl] at hget
    exact hget
  · intro h disk path hempty
    refine ⟨written disk path, rfl, ?_⟩
    rw [hread disk path hempty, h]

theorem getElem?_split_of_parseDataItem {text : Text} {item : DataItem}
    (h : parseDataItem text = some item) : (split "=".toList text)[1]? = some item.value := by
  obtain ⟨parts, hsplit⟩ := split_of_parseDataItem h
  rw [hsplit]
  rfl

/-- A line of several fields does not end in an empty one. -/
theorem eventName_ne_nil {line time eventSource eventName : Text}
    (h : split ",".toList line = [time, eventSource, eventName]) : eventName ≠ [] := by
  have hcomma : ',' ∈ line := by
    by_contra hnot
    have hone : split ",".toList line = [line] := split_of_not_mem (a := ',') hnot
    cases h.symm.trans hone
  intro hempty
  refine getLast?_split_of_mem (a := ',') hcomma ?_
  have hlast : (split ",".toList line).getLast? = some eventName := by rw [h]; rfl
  exact hlast.trans (congrArg some hempty)

/-- The event of a line of a file can be written back exactly when the line has three fields
or more and no data item of it has an empty value. -/
theorem writesBack_of_line {content line : Text} {event : Event} (hline : line ∈ lines content)
    (h : eventOfLine line = some event) :
    WritesBack event ↔ 3 ≤ (split ",".toList line).length ∧
      ∀ text ∈ (split ",".toList line).drop 3, (split "=".toList text)[1]? ≠ some [] := by
  have hfields := fields_of_eventOfLine h
  obtain ⟨time, hsplit, rfl⟩ |
    ⟨time, eventSource, eventName, texts, dataItems, hsplit, hitems, rfl⟩ := eventOfLine_cases h
  · have hthrown : ¬ WritesBack ⟨time, [], [], none⟩ := by
      intro hback
      obtain ⟨disk', hwrite, _⟩ := hback ⟨[([], [])], []⟩ [] rfl
      cases hwrite
    rw [hsplit]
    simp [hthrown]
  · have hlast : dataItems = [] → eventName ≠ [] := by
      intro hnil
      rw [hnil, List.forall₂_nil_right_iff] at hitems
      exact eventName_ne_nil (hitems ▸ hsplit)
    have hequal : ∀ item ∈ dataItems, '=' ∉ item.dataName ∧ '=' ∉ item.value := by
      refine (forall_parsed_iff hitems).mpr fun text _ item hitem => ?_
      exact ⟨(fields_of_parseDataItem hitem (by simp)).2,
        (fields_of_parseDataItem hitem (by simp)).2⟩
    have hbreak : ∀ field ∈ Event.fields ⟨time, eventSource, eventName, some dataItems⟩,
        ∀ c ∈ field, c ≠ '\n' ∧ c ≠ '\r' := fun field hfield c hc =>
      not_break_of_mem_lines hline c ((hfields field hfield).1.subset hc)
    have hvalues : (∀ item ∈ dataItems, item.value ≠ []) ↔
        ∀ text ∈ texts, (split "=".toList text)[1]? ≠ some [] := by
      have hparsed : (texts.mapM parseDataItem).isSome = true := by
        rw [(mapM_eq_some_iff _ _ _).mpr hitems]
        rfl
      refine (forall_parsed_iff hitems).trans (forall₂_congr fun text htext => ?_)
      obtain ⟨item, hitem⟩ := Option.isSome_iff_exists.mp
        ((mapM_isSome_iff parseDataItem texts).mp hparsed text htext)
      rw [getElem?_split_of_parseDataItem hitem, hitem]
      simp
    rw [writesBack_iff hbreak,
      eventOfLine_rowText (fun field hfield => (hfields field hfield).2) hequal hlast, hvalues,
      hsplit]
    simp

/-- An event of one field has no data list, and the writer throws on it. -/
def loneField : Text := "12:30".toList

theorem loneField_not_writesBack :
    loneField ∈ lines loneField ∧ eventOfLine loneField = some ⟨loneField, [], [], none⟩ ∧
      ¬ WritesBack ⟨loneField, [], [], none⟩ := by
  refine ⟨by decide, by decide, fun hback => ?_⟩
  obtain ⟨disk', hwrite, _⟩ := hback ⟨[([], [])], []⟩ [] rfl
  cases hwrite

def sensorLine : Text := "0,sensor,on,t=4".toList

theorem sensorLine_writesBack :
    WritesBack ⟨"0".toList, "sensor".toList, "on".toList, some [⟨"t".toList, "4".toList⟩]⟩ :=
  (@writesBack_of_line sensorLine sensorLine _ (by decide) (by decide)).mpr (by decide)

/-! ### Whole log files -/

/-- The fields of the event are not empty, and no separator or line break is in one. -/
def Clean (event : Event) : Prop :=
  ∀ field ∈ event.fields, field ≠ [] ∧ ∀ c ∈ field, c ≠ ',' ∧ c ≠ '=' ∧ c ≠ '\n' ∧ c ≠ '\r'

def rowOf (event : Event) : Text :=
  rowText event.time event.eventSource event.eventName (event.dataItems.getD [])

theorem eventOfLine_rowOf {event : Event} (hclean : Clean event)
    (hlist : event.dataItems.isSome = true) : eventOfLine (rowOf event) = some event := by
  obtain ⟨time, eventSource, eventName, dataItems⟩ := event
  obtain ⟨items, rfl⟩ := Option.isSome_iff_exists.mp hlist
  have hall := (forall_mem_fields fun field =>
    field ≠ [] ∧ ∀ c ∈ field, c ≠ ',' ∧ c ≠ '=' ∧ c ≠ '\n' ∧ c ≠ '\r').mp hclean
  obtain ⟨htime, hsource, hname, hitems⟩ := hall
  refine (eventOfLine_rowText ?_ ?_ ?_).mpr ?_
  · exact fun field hfield hcomma => ((hclean field hfield).2 ',' hcomma).1 rfl
  · exact fun item hitem => ⟨fun hmem => ((hitems item hitem).1.2 '=' hmem).2.1 rfl,
      fun hmem => ((hitems item hitem).2.2 '=' hmem).2.1 rfl⟩
  · exact fun _ => hname.1
  · exact fun item hitem => (hitems item hitem).2.1

theorem not_break_rowOf {event : Event} (hclean : Clean event) :
    ∀ c ∈ rowOf event, c ≠ '\n' ∧ c ≠ '\r' := by
  refine not_break_rowText fun field hfield c hc => ?_
  have hchar := (hclean field hfield).2 c hc
  exact ⟨hchar.2.2.1, hchar.2.2.2⟩

def rows (events : List Event) : Text := events.flatMap fun event => rowOf event ++ "\n".toList

theorem rows_cons (event : Event) (events : List Event) :
    rows (event :: events) = rowOf event ++ '\n' :: rows events := by
  simp [rows]

theorem lines_rows {events : List Event} (hclean : ∀ event ∈ events, Clean event) :
    lines (rows events) = events.map rowOf := by
  induction events with
  | nil => rfl
  | cons event events ih =>
      obtain ⟨hevent, hevents⟩ := List.forall_mem_cons.mp hclean
      rw [rows_cons, lines_append_cons _ (not_break_rowOf hevent), ih hevents, List.map_cons]

theorem recorded_rows {events : List Event} (hclean : ∀ event ∈ events, Clean event)
    (hlists : ∀ event ∈ events, event.dataItems.isSome = true) :
    (LogfileReader.recorded (events.map rowOf)).1 = events := by
  induction events with
  | nil => rfl
  | cons event events ih =>
      obtain ⟨hevent, hevents⟩ := List.forall_mem_cons.mp hclean
      obtain ⟨hlist, hlists⟩ := List.forall_mem_cons.mp hlists
      rw [List.map_cons, LogfileReader.recorded, eventOfLine_rowOf hevent hlist]
      simp [ih hevents hlists]

theorem not_break_header : ∀ c ∈ LogfileWriter.header, c ≠ '\n' ∧ c ≠ '\r' := by
  have hall : (LogfileWriter.header.all fun c => c != '\n' && c != '\r') = true := rfl
  intro c hc
  simpa using List.all_eq_true.mp hall c hc

/-- The header is not ended, so that its line takes in the first row. -/
theorem lines_header_rows {events : List Event} (hclean : ∀ event ∈ events, Clean event) :
    ∃ first, lines (LogfileWriter.header ++ rows events) = first :: events.tail.map rowOf := by
  cases events with
  | nil => exact ⟨LogfileWriter.header, rfl⟩
  | cons event events =>
      obtain ⟨hevent, hevents⟩ := List.forall_mem_cons.mp hclean
      have hfirst : ∀ c ∈ LogfileWriter.header ++ rowOf event, c ≠ '\n' ∧ c ≠ '\r' :=
        List.forall_mem_append.mpr ⟨not_break_header, not_break_rowOf hevent⟩
      refine ⟨LogfileWriter.header ++ rowOf event, ?_⟩
      rw [rows_cons, ← List.append_assoc, lines_append_cons _ hfirst, lines_rows hevents,
        List.tail_cons]

namespace LogfileWriter

theorem writeEntry_of_isSome {event : Event} (disk : Disk) (path : Text)
    (hlist : event.dataItems.isSome = true) :
    writeEntry (fun _ => true) (some event) ⟨some path⟩ disk =
      (.ok true, disk.append path (rowOf event ++ "\n".toList)) := by
  obtain ⟨dataItems, hitems⟩ := Option.isSome_iff_exists.mp hlist
  simp [writeEntry, row, rowOf, hitems]

theorem writeEvents_of_isSome {events : List Event} {disk : Disk} {path old : Text}
    (hlists : ∀ event ∈ events, event.dataItems.isSome = true)
    (hold : disk.content path = some old) :
    ∃ disk', writeEvents (fun _ => true) ⟨some path⟩ events disk = (.ok true, disk') ∧
      disk'.content path = some (old ++ rows events) := by
  induction events generalizing disk old with
  | nil => exact ⟨disk, rfl, by simp [rows, hold]⟩
  | cons event events ih =>
      obtain ⟨hlist, hlists⟩ := List.forall_mem_cons.mp hlists
      have hnext : (disk.append path (rowOf event ++ "\n".toList)).content path =
          some (old ++ (rowOf event ++ "\n".toList)) := by
        rw [Disk.content_append, hold]
        rfl
      obtain ⟨disk', hwrite, hcontent⟩ := ih hlists hnext
      refine ⟨disk', ?_, ?_⟩
      · rw [writeEvents, loop, writeEntry_of_isSome disk path hlist]
        exact hwrite
      · rw [hcontent, rows_cons]
        simp

/-- The writer stops at an event without a data list. -/
theorem isSome_of_writeEvents {events : List Event} {disk disk' : Disk} {path : Text}
    (h : writeEvents (fun _ => true) ⟨some path⟩ events disk = (.ok true, disk')) :
    ∀ event ∈ events, event.dataItems.isSome = true := by
  induction events generalizing disk with
  | nil => simp
  | cons event events ih =>
      cases hlist : event.dataItems with
      | none => simp [writeEvents, loop, writeEntry, row, hlist] at h
      | some dataItems =>
          have hsome : event.dataItems.isSome = true := by rw [hlist]; rfl
          rw [writeEvents, loop, writeEntry_of_isSome disk path hsome] at h
          exact List.forall_mem_cons.mpr ⟨hsome, ih h⟩

end LogfileWriter

/-- The log file can be written to an empty file, and is what is read from it. -/
def WritesAllBack (l : Logfile) : Prop :=
  ∀ disk path, disk.content path = some [] → ∃ disk',
    LogfileWriter.writeAll (fun _ => true) (some l) ⟨some path⟩ disk = (.ok true, disk') ∧
      (LogfileReader.readAll ⟨[]⟩ ⟨some (disk'.file path), none⟩).1 = some l

/-- Of the events written all but the first are read back. -/
theorem readAll_of_writeAll {l : Logfile} {disk disk' : Disk} {path : Text}
    (hclean : ∀ event ∈ l.events, Clean event) (hempty : disk.content path = some [])
    (h : LogfileWriter.writeAll (fun _ => true) (some l) ⟨some path⟩ disk = (.ok true, disk')) :
    (LogfileReader.readAll ⟨[]⟩ ⟨some (disk'.file path), none⟩).1 = some ⟨l.events.tail⟩ := by
  have hlists := LogfileWriter.isSome_of_writeEvents h
  have hheader : (disk.append path LogfileWriter.header).content path =
      some LogfileWriter.header := by
    rw [Disk.content_append, hempty]
    rfl
  obtain ⟨written, hwrite, hcontent⟩ := LogfileWriter.writeEvents_of_isSome hlists hheader
  have hdisk : written = disk' := congrArg Prod.snd (hwrite.symm.trans h)
  obtain ⟨first, hlines⟩ := lines_header_rows hclean
  have htail : (LogfileReader.recorded (l.events.tail.map rowOf)).1 = l.events.tail :=
    recorded_rows (fun event hevent => hclean event (List.mem_of_mem_tail hevent))
      fun event hevent => hlists event (List.mem_of_mem_tail hevent)
  rw [LogfileReader.readAll_eq, Option.getD_none, Disk.file, ← hdisk, hcontent, Option.getD_some,
    hlines]
  change some (Logfile.mk ([] ++ (LogfileReader.recorded (l.events.tail.map rowOf)).1)) = _
  rw [htail, List.nil_append]

/-- A clean log file is written and read back exactly when it has no events. -/
theorem writesAllBack_iff {l : Logfile} (hclean : ∀ event ∈ l.events, Clean event) :
    WritesAllBack l ↔ l.events = [] := by
  constructor
  · intro h
    obtain ⟨disk', hwrite, hread⟩ := h ⟨[([], [])], []⟩ [] rfl
    rw [readAll_of_writeAll hclean rfl hwrite] at hread
    have hevents : l.events.tail = l.events := congrArg Logfile.events (Option.some.inj hread)
    have hlength := congrArg List.length hevents
    rw [List.length_tail] at hlength
    exact List.length_eq_zero_iff.mp (by omega)
  · intro hnil disk path hempty
    obtain ⟨events⟩ := l
    cases hnil
    exact ⟨disk.append path LogfileWriter.header, rfl, readAll_of_writeAll hclean hempty rfl⟩

def sensorEvent : Event := ⟨"0".toList, "sensor".toList, "on".toList, some []⟩

theorem clean_sensorEvent : Clean sensorEvent := by simp [Clean, Event.fields, sensorEvent]

theorem writesAllBack_emptyOnly :
    WritesAllBack ⟨[]⟩ ∧ ¬ WritesAllBack ⟨[sensorEvent, sensorEvent]⟩ := by
  refine ⟨(writesAllBack_iff (List.forall_mem_nil _)).mpr rfl, fun hback => ?_⟩
  have hclean : ∀ event ∈ [sensorEvent, sensorEvent], Clean event :=
    List.forall_mem_cons.mpr ⟨clean_sensorEvent, List.forall_mem_singleton.mpr clean_sensorEvent⟩
  exact List.cons_ne_nil _ _ ((writesAllBack_iff hclean).mp hback)

/-- The only event of the log file is lost in the line of the header. -/
theorem sensorEvent_not_writesAllBack :
    Clean sensorEvent ∧ ¬ WritesAllBack ⟨[sensorEvent]⟩ := by
  refine ⟨clean_sensorEvent, fun hback => ?_⟩
  obtain ⟨disk', hwrite, hread⟩ := hback ⟨[([], [])], []⟩ [] rfl
  have hlost := readAll_of_writeAll (List.forall_mem_singleton.mpr clean_sensorEvent) rfl hwrite
  rw [hread] at hlost
  cases hlost

/-! ### One row of a file -/

namespace LogfileReader

/-- A new reader that has read the given number of lines of the file. -/
def atRow (file : File) (n : Nat) : LogfileReader :=
  stateAfter call new (.setCurrentFile (some file) :: List.replicate n .readLine)

theorem stateAfter_readLine {file : File} {r : LogfileReader} {n : Nat}
    (hfile : r.currentFile = some file) (h : n ≤ r.unread.length) :
    (stateAfter call r (List.replicate n .readLine)).currentFile = some file ∧
      (stateAfter call r (List.replicate n .readLine)).unread = r.unread.drop n := by
  induction n generalizing r with
  | zero => exact ⟨hfile, rfl⟩
  | succ n ih =>
      have hnext : stateAfter call r (List.replicate (n + 1) .readLine) =
          stateAfter call r.readLine.2 (List.replicate n .readLine) := rfl
      have hunread : r.unread = r.reader.getD (initializeReader file) := by simp [unread, hfile]
      cases hlines : r.unread with
      | nil => simp [hlines] at h
      | cons line rest =>
          have hread : r.readLine.2 = { r with reader := some rest } := by
            rw [hunread] at hlines
            simp [readLine, hfile, hlines]
          have hrest : r.readLine.2.unread = rest := by
            rw [hread]
            simp [unread, hfile]
          have hlength : n ≤ r.readLine.2.unread.length := by
            rw [hlines, List.length_cons] at h
            rw [hrest]
            omega
          obtain ⟨hcurrent, hdrop⟩ := ih (by rw [hread]; exact hfile) hlength
          rw [hnext]
          exact ⟨hcurrent, by rw [hdrop, hrest, List.drop_succ_cons]⟩

/-- The event at a row is the event of the line that stands there. -/
theorem getEvent_atRow {file : File} {before after : List Text} {line : Text}
    (hfile : file.isFile = true) (h : lines file.content = before ++ line :: after) :
    (atRow file before.length).getEvent.1 = eventOfLine line := by
  have hset : atRow file before.length =
      stateAfter call ⟨some file, none⟩ (List.replicate before.length .readLine) := by
    simp [atRow, stateAfter, call, setCurrentFile, hfile, new]
  have hunread : unread ⟨some file, none⟩ = before ++ line :: after := h
  obtain ⟨hcurrent, hdrop⟩ := @stateAfter_readLine file ⟨some file, none⟩ before.length rfl
    (by simp [hunread])
  rw [← hset] at hcurrent hdrop
  have hlines : (atRow file before.length).reader.getD (initializeReader file) = line :: after := by
    rw [hunread, List.drop_left] at hdrop
    rw [← hdrop]
    simp [unread, hcurrent]
  rw [getEvent_of_some hcurrent, hlines]

end LogfileReader

/-- A clean event with a list of data items is written as one row, which is read as the
event wherever it starts a line of the file. -/
theorem getEvent_of_writeEntry {time eventSource eventName : Text} {dataItems : List DataItem}
    {disk : Disk} {path old : Text}
    (hclean : Clean ⟨time, eventSource, eventName, some dataItems⟩)
    (hold : disk.content path = some old) (hended : Ended old) :
    ∃ disk', LogfileWriter.writeEntry (fun _ => true)
          (some ⟨time, eventSource, eventName, some dataItems⟩) ⟨some path⟩ disk =
        (.ok true, disk') ∧
      (LogfileReader.atRow (disk'.file path) (lines old).length).getEvent.1 =
        some ⟨time, eventSource, eventName, some dataItems⟩ := by
  generalize hevent : Event.mk time eventSource eventName (some dataItems) = event at hclean
  have hlist : event.dataItems.isSome = true := by rw [← hevent]; rfl
  have hcontent := Disk.content_append disk path (rowOf event ++ "\n".toList)
  rw [hold] at hcontent
  have hfile : ((disk.append path (rowOf event ++ "\n".toList)).file path).isFile = true := by
    change ((disk.append path (rowOf event ++ "\n".toList)).content path).isSome = true
    rw [hcontent]
    rfl
  have hlines : lines ((disk.append path (rowOf event ++ "\n".toList)).file path).content =
      lines old ++ rowOf event :: [] := by
    rw [Disk.content_file_append _ hold, lines_append _ hended]
    exact congrArg (lines old ++ ·) (lines_append_cons [] (not_break_rowOf hclean))
  refine ⟨_, LogfileWriter.writeEntry_of_isSome disk path hlist, ?_⟩
  rw [LogfileReader.getEvent_atRow hfile hlines, eventOfLine_rowOf hclean hlist]

/-- An event with two data items, after a row that is in the file already. -/
def doorEvent : Event :=
  ⟨"5".toList, "door".toList, "open".toList,
    some [⟨"side".toList, "left".toList⟩, ⟨"speed".toList, "2".toList⟩]⟩

def doorDisk : Disk := ⟨[("log".toList, "4,door,shut\n".toList)], []⟩

theorem doorEvent_getEvent :
    ∃ disk', LogfileWriter.writeEntry (fun _ => true) (some doorEvent) ⟨some "log".toList⟩
          doorDisk = (.ok true, disk') ∧
      (LogfileReader.atRow (disk'.file "log".toList)
          (lines "4,door,shut\n".toList).length).getEvent.1 = some doorEvent :=
  getEvent_of_writeEntry (by simp [Clean, Event.fields]) rfl (.inr (by decide))

end UmnProjects.Loafr
