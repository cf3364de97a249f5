/-
Options that are written are read back.

What is written is a member for each field that is set, and then the options of
the engine. A name of the one kind is none of the other (`Portable.apart`), so
every field has the one member that it was written as, or none
(`field_written`), and every option of the engine is the last of its name
(`last?_written`). Unset is missing, and is not the same as empty. What comes
back of an option of the engine is what is meant by it, so it comes back as it
is if no object in it stands for a text (`ofMembers_written_iff`).

Options that were read can be written, if their numbers are whole and they do
not nest too deep (`portable_of_parse`). The reader keeps the names apart, and
what it allows to nest in a text nests no deeper when it is written again, unless
an object stands for a text (`portable_of_unmarked`). But it sorts the members of
objects, and one that stood for no text can do so when its members are sorted.
-/
import TransformCache.Proofs.CacheKey
import TransformCache.Proofs.Options

namespace TransformCache.Options

open Json (PlainMembers depthMembers)

variable {o : Options} {ms : List (String × Json)} {name : String}

-- ========================================================== what is written

/-- The members of those fields that have a value. -/
def setMembers (fields : List (String × Option Json)) : List (String × Json) :=
  fields.filterMap fun f => f.2.map (f.1, ·)

/-- What is written of each field, if it is set. -/
def fields (o : Options) : List (String × Option Json) :=
  [("only", o.only.map writeTexts), ("ignore", o.ignore.map writeTexts),
    ("cache", o.cache.map .bool), ("cacheSourceRoot", o.cacheSourceRoot.map writePath),
    ("projectName", o.projectName.map .string), ("extensions", o.extensions.map writeTexts)]

/-- The members that options are written as. -/
def written (o : Options) : List (String × Json) := setMembers o.fields ++ o.transform.members

theorem setMembers_cons (name : String) (value : Option Json)
    (rest : List (String × Option Json)) :
    setMembers ((name, value) :: rest)
      = (match value with
          | some x => [(name, x)]
          | none => []) ++ setMembers rest := by
  cases value with
  | none => rfl
  | some x => rfl

theorem toJson_eq (o : Options) : o.toJson = .object o.written := by
  unfold toJson written fields
  simp only [setMembers_cons, List.append_assoc]
  rfl

theorem mem_names_of_mem_setMembers {fields : List (String × Option Json)} {m : String × Json}
    (h : m ∈ setMembers fields) : m.1 ∈ fields.map (·.1) := by
  obtain ⟨f, hf, hmember⟩ := List.mem_filterMap.1 h
  obtain ⟨x, -, rfl⟩ := Option.map_eq_some_iff.1 hmember
  exact List.mem_map_of_mem hf

/-- No member is of a name that no field has. -/
theorem filter_setMembers_of_not_mem {fields : List (String × Option Json)}
    (h : name ∉ fields.map (·.1)) : (setMembers fields).filter (·.1 = name) = [] := by
  rw [List.filter_eq_nil_iff]
  intro m hm hname
  exact h (of_decide_eq_true hname ▸ mem_names_of_mem_setMembers hm)

/-- A field has one member if it is set. -/
theorem filter_setMembers {fields : List (String × Option Json)} {value : Option Json}
    (hnodup : (fields.map (·.1)).Nodup) (h : (name, value) ∈ fields) :
    (setMembers fields).filter (·.1 = name) = (value.map (name, ·)).toList := by
  induction fields with
  | nil => cases h
  | cons f rest ih =>
      obtain ⟨hfirst, hrest⟩ := List.nodup_cons.1 hnodup
      obtain ⟨first, value'⟩ := f
      rw [setMembers_cons, List.filter_append]
      rcases List.mem_cons.1 h with heq | h
      · cases heq
        rw [filter_setMembers_of_not_mem hfirst, List.append_nil]
        cases value with
        | none => rfl
        | some x => simp
      · have hne : first ≠ name := by
          rintro rfl
          exact hfirst (List.mem_map_of_mem (f := (·.1)) h)
        rw [ih hrest h]
        cases value' with
        | none => rfl
        | some x => simp [hne]

/-- The fields are those that are known. -/
theorem names_fields (o : Options) : o.fields.map (·.1) = known := rfl

/-- A field is written as it is read. -/
theorem field_written {α : Type} {write : α → Json} {value : Option α}
    (hname : o.transform.get? name = none) (h : (name, value.map write) ∈ o.fields) :
    Json.Field write name o.written value := by
  have hnodup : (o.fields.map (·.1)).Nodup := by
    rw [names_fields]
    decide
  have hengine : o.transform.members.filter (·.1 = name) = [] := by
    rw [List.filter_eq_nil_iff]
    intro m hm hmember
    have hkey : m.1 = name := by simpa using hmember
    have hfound := Members.find?_of_mem o.transform.sorted hm
    rw [hkey] at hfound
    exact absurd (hname.symm.trans hfound) (by simp)
  unfold Json.Field written
  rw [List.filter_append, filter_setMembers hnodup h, hengine, List.append_nil]
  cases value with
  | none => exact .inl ⟨rfl, rfl⟩
  | some v => exact .inr rfl

/-- An option of the engine is the last member of its name. -/
theorem last?_written (h : name ∉ known) (o : Options) :
    Keyed.last? name o.written = o.transform.get? name := by
  rw [← Keyed.last?_members]
  unfold Keyed.last? written
  rw [List.filter_append, filter_setMembers_of_not_mem h, List.nil_append]

-- ================================================== options that come back

/-- Options that come back: no option of the engine is named like a field, all
numbers are whole numbers of 64 bits, and the text does not nest too deep. -/
structure Portable (o : Options) : Prop where
  apart : ∀ name ∈ known, o.transform.get? name = none
  plain : o.transform.Plain
  depth : o.toJson.depth ≤ Json.depthLimit

/-- No object in an option of the engine stands for a text. -/
def Unmarked (o : Options) : Prop :=
  ∀ name value, o.transform.get? name = some value → Json.Unmarked value

/-- The members that options are written as make these options, callbacks apart, if
they are meant as they are. -/
theorem Portable.ofMembers_written_iff (h : o.Portable) :
    { o with log := none, debug := none }.OfMembers o.written ↔ o.Unmarked := by
  have hother : ∀ name value, o.transform.get? name = some value →
      name ∉ known ∧ value.Every Json.Ordered := fun name value hget =>
    ⟨fun hname => by simp [h.apart name hname] at hget,
      ((Json.plain_iff value).1 (h.plain name value hget)).2.2⟩
  constructor
  · intro hmade name value hget
    obtain ⟨hname, hordered⟩ := hother name value hget
    have hback : o.transform.get? name = _ := hmade.transform name
    rw [if_neg hname, last?_written hname, hget, Option.bind_some] at hback
    exact (Json.settle_eq_ok_iff hordered).1 (toOption_eq_some.1 hback.symm)
  · intro hunmarked
    have hsettles : ∀ name value, o.transform.get? name = some value →
        Json.settle value = .ok value := fun name value hget =>
      (Json.settle_eq_ok_iff (hother name value hget).2).2 (hunmarked name value hget)
    exact {
      only := field_written (h.apart "only" (by decide)) (by simp [fields])
      ignore := field_written (h.apart "ignore" (by decide)) (by simp [fields])
      cache := field_written (h.apart "cache" (by decide)) (by simp [fields])
      cacheSourceRoot := field_written (h.apart "cacheSourceRoot" (by decide)) (by simp [fields])
      projectName := field_written (h.apart "projectName" (by decide)) (by simp [fields])
      extensions := field_written (h.apart "extensions" (by decide)) (by simp [fields])
      settles := fun name x hx hname => by
        rcases List.mem_append.1 hx with hfield | hengine
        · have hnames := mem_names_of_mem_setMembers hfield
          exact absurd (names_fields o ▸ hnames) hname
        · exact ⟨x, hsettles name x (Members.find?_of_mem o.transform.sorted hengine)⟩
      transform := fun name => by
        by_cases hname : name ∈ known
        · rw [if_pos hname]
          exact h.apart name hname
        · rw [if_neg hname, last?_written hname]
          cases hget : o.transform.get? name with
          | none => rfl
          | some value => exact (toOption_eq_some.2 (hsettles name value hget)).symm
      log := rfl
      debug := rfl }

/-- A field is written without numbers, and with one list at most. -/
theorem of_mem_fields {m : String × Json} (h : m ∈ setMembers o.fields) :
    m.2.Plain ∧ m.2.depth ≤ 1 := by
  have hscalar : ∀ {x : Json}, x.Plain → x.depth = 0 → x.Plain ∧ x.depth ≤ 1 :=
    fun hplain hdepth => ⟨hplain, hdepth ▸ Nat.zero_le 1⟩
  have htexts : ∀ items, (writeTexts items).Plain ∧ (writeTexts items).depth ≤ 1 := by
    intro items
    constructor
    · refine Json.plainItems_iff.2 fun x hx => ?_
      obtain ⟨s, -, rfl⟩ := List.mem_map.1 hx
      exact trivial
    · refine Nat.succ_le_succ ((Json.depthItems_le_iff _).2 fun x hx => ?_)
      obtain ⟨s, -, rfl⟩ := List.mem_map.1 hx
      exact Nat.le_refl 0
  obtain ⟨f, hf, hmember⟩ := List.mem_filterMap.1 h
  obtain ⟨x, hx, rfl⟩ := Option.map_eq_some_iff.1 hmember
  simp only [fields, List.mem_cons, List.not_mem_nil, or_false] at hf
  rcases hf with rfl | rfl | rfl | rfl | rfl | rfl
  · obtain ⟨items, -, rfl⟩ := Option.map_eq_some_iff.1 hx
    exact htexts items
  · obtain ⟨items, -, rfl⟩ := Option.map_eq_some_iff.1 hx
    exact htexts items
  · obtain ⟨b, -, rfl⟩ := Option.map_eq_some_iff.1 hx
    exact hscalar trivial rfl
  · obtain ⟨p, -, rfl⟩ := Option.map_eq_some_iff.1 hx
    exact hscalar trivial rfl
  · obtain ⟨s, -, rfl⟩ := Option.map_eq_some_iff.1 hx
    exact hscalar trivial rfl
  · obtain ⟨items, -, rfl⟩ := Option.map_eq_some_iff.1 hx
    exact htexts items

theorem plainMembers_written (h : o.transform.Plain) : PlainMembers o.written := by
  refine Json.plainMembers_iff.2 fun m hm => ?_
  rcases List.mem_append.1 hm with hm | hm
  · exact (of_mem_fields hm).1
  · exact h m.1 m.2 (Members.find?_of_mem o.transform.sorted hm)

/-- Options are written as their members, whatever the blanks. -/
theorem Portable.textMembers_eq (h : o.Portable) {text : String}
    (htext : text ∈ [o.toJson.compact, o.toJson.pretty]) :
    Json.textMembers (Utf8.encode text) = .ok o.written := by
  have hdepth : depthMembers o.written < Json.depthLimit := by
    have hwritten := h.depth
    rw [toJson_eq] at hwritten
    exact Nat.lt_of_succ_le hwritten
  simp only [toJson_eq, List.mem_cons, List.not_mem_nil, or_false] at htext
  rcases htext with rfl | rfl
  · rw [Json.encode_compact]
    exact Json.textMembers_text .compact (plainMembers_written h.plain) hdepth
  · rw [Json.encode_pretty]
    exact Json.textMembers_text .pretty (plainMembers_written h.plain) hdepth

theorem Portable.parse_eq_ok_iff (h : o.Portable) {text : String}
    (htext : text ∈ [o.toJson.compact, o.toJson.pretty]) :
    parse text = .ok { o with log := none, debug := none } ↔ o.Unmarked := by
  rw [← h.ofMembers_written_iff, parse_eq_ok_iff_ofMembers, h.textMembers_eq htext]
  simp

-- ==================================================== options that were read

/-- An option of the engine that was read is what is meant by a member of the
object. -/
theorem OfMembers.exists_of_transform (h : o.OfMembers ms) {key : String} {value : Json}
    (hget : o.transform.get? key = some value) :
    ∃ x, (key, x) ∈ ms ∧ Json.settle x = .ok value := by
  rw [h.transform key] at hget
  split at hget
  · cases hget
  · obtain ⟨x, hlast, hvalue⟩ := Option.bind_eq_some_iff.1 hget
    rw [← Keyed.get?_ofList] at hlast
    exact ⟨x, Members.mem_ofList (Members.mem_of_find? hlast), toOption_eq_some.1 hvalue⟩

/-- What was read as members can be looked at. -/
theorem legible_of_textMembers {text : Bytes} (h : Json.textMembers text = .ok ms) :
    ∀ m ∈ ms, Json.Legible (Json.depthLimit - 1) m.2 := by
  have hlegible : Json.Legible Json.depthLimit (.object ms) :=
    Json.of_document (Json.answers_tree Json.depthLimit) (Json.document_eq_object_iff.2 h)
  have hdepth := (Json.depthMembers_le_iff ms).1 (Nat.le_of_succ_le_succ hlegible.depth)
  exact fun m hm => ⟨hdepth m hm, (Json.every_object.1 hlegible.kept).2 m hm⟩

/-- Options that were read can be written, if their numbers are whole and they do not
nest too deep. -/
theorem portable_of_parse {text : String} (h : parse text = .ok o)
    (hwhole : ∀ key value, o.transform.get? key = some value → value.Integral)
    (hdepth : o.toJson.depth ≤ Json.depthLimit) : o.Portable := by
  obtain ⟨ms, hms, ho⟩ := parse_eq_ok_iff_ofMembers.1 h
  refine ⟨fun name hname => ?_, fun key value hget => ?_, hdepth⟩
  · rw [ho.transform name, if_pos hname]
  · obtain ⟨x, hx, hsettle⟩ := ho.exists_of_transform hget
    have htidy := Json.tidy_of_settled (legible_of_textMembers hms _ hx).kept value
      (toOption_eq_some.2 hsettle)
    exact htidy.plain (hwhole key value hget)

/-- They are so, if they were read from members of whole numbers that stand for no
text. -/
theorem portable_of_unmarked {text : String} (h : parse text = .ok o)
    (hclean : ∀ ms, Json.textMembers (Utf8.encode text) = .ok ms →
      ∀ m ∈ ms, m.2.Integral ∧ m.2.Unmarked) : o.Portable := by
  obtain ⟨ms, hms, ho⟩ := parse_eq_ok_iff_ofMembers.1 h
  -- each option is a member that was sorted
  have hvalue : ∀ key value, o.transform.get? key = some value →
      value.Integral ∧ value.depth ≤ Json.depthLimit - 1 := by
    intro key value hget
    obtain ⟨x, hx, hsettle⟩ := ho.exists_of_transform hget
    obtain ⟨hwhole, hunmarked⟩ := hclean ms hms _ hx
    rw [Json.settle_of_unmarked hunmarked] at hsettle
    cases hsettle
    exact ⟨hwhole.sorted (fun _ => trivial) fun _ => trivial,
      Nat.le_trans (Json.depth_sorted_le x) (legible_of_textMembers hms _ hx).depth⟩
  refine portable_of_parse h (fun key value hget => (hvalue key value hget).1) ?_
  rw [toJson_eq]
  refine Nat.succ_le_succ ((Json.depthMembers_le_iff _).2 fun m hm => ?_)
  rcases List.mem_append.1 hm with hm | hm
  · exact Nat.le_trans (of_mem_fields hm).2 (by decide)
  · exact (hvalue _ _ (Members.find?_of_mem o.transform.sorted hm)).2

-- ========================================================== main statement

/-- Options that are written are read back as they were, callbacks apart, be
they written with blanks or without, exactly if no object in an option of the
engine stands for a text. All options that are read can be written so, if their
numbers are whole and they do not nest too deep; those are that were read from
members of whole numbers that stand for no text. Then reading them, writing them
and reading them again is the same as reading them once, exactly if no object
stands for a text when its members are sorted. -/
theorem parse_written (o : Options) :
    (o.Portable → ∀ text ∈ [o.toJson.compact, o.toJson.pretty],
      (parse text = .ok { o with log := none, debug := none } ↔ o.Unmarked)) ∧
    ∀ text, parse text = .ok o →
      ((∀ key value, o.transform.get? key = some value → value.Integral) →
        o.toJson.depth ≤ Json.depthLimit → o.Portable) ∧
      ((∀ ms, Json.textMembers (Utf8.encode text) = .ok ms →
        ∀ m ∈ ms, m.2.Integral ∧ m.2.Unmarked) → o.Portable) ∧
      (o.Portable → ∀ text' ∈ [o.toJson.compact, o.toJson.pretty],
        (parse text' = .ok o ↔ o.Unmarked)) := by
  refine ⟨fun h text htext => h.parse_eq_ok_iff htext, fun text h =>
    ⟨portable_of_parse h, portable_of_unmarked h, fun hportable text' htext' => ?_⟩⟩
  have hback := hportable.parse_eq_ok_iff htext'
  have hsame : { o with log := none, debug := none } = o := by
    obtain ⟨ms, -, ho⟩ := parse_eq_ok_iff_ofMembers.1 h
    have hlog := ho.log
    have hdebug := ho.debug
    cases o
    cases hlog
    cases hdebug
    rfl
  rwa [hsame] at hback

/-- Options in which much is empty and not unset, with names that are nearly
known and numbers at both ends of what is kept. -/
def mixed : Options where
  only := some []
  ignore := some ["", "**/\"\u00e9\"\n"]
  cache := some false
  cacheSourceRoot := some ⟨""⟩
  log := some ⟨"console"⟩
  transform := Keyed.ofList
    [("cache_source_root", .null), ("log", .object []),
      ("sizes", .array [.int (-9223372036854775808), .int 18446744073709551615])]

theorem portable_mixed : mixed.Portable where
  apart := by
    simp only [known, List.forall_mem_cons, List.not_mem_nil, false_imp_iff, implies_true, and_true]
    exact ⟨rfl, rfl, rfl, rfl, rfl, rfl⟩
  plain key value hvalue := by
    have hmem := Members.mem_ofList (Members.mem_of_find? hvalue)
    simp only [List.mem_cons, List.not_mem_nil, or_false, Prod.mk.injEq] at hmem
    rcases hmem with ⟨-, rfl⟩ | ⟨-, rfl⟩ | ⟨-, rfl⟩
    · exact trivial
    · exact ⟨List.Pairwise.nil, trivial⟩
    · exact ⟨show Json.IsWhole (-9223372036854775808) by decide,
        show Json.IsWhole 18446744073709551615 by decide, trivial⟩
  depth := by decide +kernel

/-- Members with a field that is `null`, and with an option that is given twice. -/
def loose : List (String × Json) :=
  [("only", .null), ("sizes", .int 1), ("sizes", .object [("b", .int (-2))]), ("ignore", .array [])]

/-- The options that they make. -/
def tidy : Options where
  ignore := some []
  transform := Keyed.ofList [("sizes", .object [("b", .int (-2))])]

/-- The general statement for mixed options, and for a text that is not what is
written of the options in it. -/
theorem parse_written_loose :
    mixed.Portable ∧
      parse mixed.toJson.compact = .ok { mixed with log := none } ∧
      parse (Json.object loose).compact = .ok tidy ∧
      tidy.toJson.compact = "\x7b\"ignore\":[],\"sizes\":\x7b\"b\":-2\x7d\x7d" ∧
      parse tidy.toJson.compact = .ok tidy := by
  have hmixed : mixed.Unmarked := Keyed.forall_members_iff.1 (by decide)
  have htidy : tidy.Unmarked := Keyed.forall_members_iff.1 (by decide)
  have hplain : PlainMembers loose :=
    ⟨trivial, show Json.IsWhole 1 by decide, ⟨by simp [Members.Sorted],
      show Json.IsWhole (-2) by decide, trivial⟩, trivial, trivial⟩
  have hms := Json.textMembers_of_plain hplain (by decide)
  have hparse : parse (Json.object loose).compact = .ok tidy :=
    parse_eq_ok_iff_ofMembers.2 ⟨loose, hms, ofMembers?_eq_some_iff.1 rfl⟩
  have hclean : ∀ ms, Json.textMembers (Utf8.encode (Json.object loose).compact) = .ok ms →
      ∀ m ∈ ms, m.2.Integral ∧ m.2.Unmarked := by
    intro ms hread
    cases hms.symm.trans hread
    decide
  obtain ⟨hwritten, -⟩ := parse_written mixed
  obtain ⟨-, hread⟩ := parse_written tidy
  obtain ⟨-, hportable, hagain⟩ := hread _ hparse
  exact ⟨portable_mixed, (hwritten portable_mixed _ List.mem_cons_self).2 hmixed, hparse,
    by decide +kernel, (hagain (hportable hclean) _ List.mem_cons_self).2 htidy⟩

/-- A text of whole numbers, with an object whose members are not sorted. -/
def unsorted : String :=
  "\x7b\"p\":\x7b\"a\":1,\"$serde_json::private::RawValue\":7\x7d\x7d"

/-- The options in it. -/
def marked : Options where
  transform := Keyed.ofList [("p", .object [(Json.rawKey, .int 7), ("a", .int 1)])]

/-- They can be written, but they are not read again; neither is what was read from
the text. -/
theorem parse_marked_fails :
    (marked.Portable ∧ ∀ o, parse marked.toJson.compact ≠ .ok o) ∧
      ∃ read, parse unsorted = .ok read ∧ ∀ o, parse read.toJson.compact ≠ .ok o := by
  have hfailed : ∀ {r : Except Error Options}, r.toBool = false → ∀ o, r ≠ .ok o := by
    rintro r hr o rfl
    cases hr
  have hagain : ((parse unsorted).toOption.map fun o => (parse o.toJson.compact).toBool)
      = some false := by decide +kernel
  obtain ⟨read, hread, hfails⟩ := Option.map_eq_some_iff.1 hagain
  refine ⟨⟨⟨?_, ?_, by decide +kernel⟩, hfailed (by decide +kernel)⟩, read,
    toOption_eq_some.1 hread, hfailed hfails⟩
  · simp only [known, List.forall_mem_cons, List.not_mem_nil, false_imp_iff, implies_true, and_true]
    exact ⟨rfl, rfl, rfl, rfl, rfl, rfl⟩
  · intro name value hget
    have hmem := Members.mem_ofList (Members.mem_of_find? hget)
    simp only [List.mem_cons, List.not_mem_nil, or_false, Prod.mk.injEq] at hmem
    obtain ⟨-, rfl⟩ := hmem
    exact ⟨List.pairwise_pair.2 (by decide), show Json.IsWhole 7 by decide,
      show Json.IsWhole 1 by decide, trivial⟩

end TransformCache.Options
