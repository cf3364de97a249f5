/-
Options, and the members of the object that they are read from.

Six names are known. A member of one of these names is a field, and may be given
once; `null` leaves it unset. All other members are options of the engine, the
last one of each name. So the members fall in two parts by their names alone, and
of the options that are read each part can be told without the other
(`OfMembers`, `parse_options_iff`).

The value of an option of the engine is what is meant by the value that was
written. That is the value itself, sorted, unless an object in it stands for a
text; then it may mean nothing, and the options are refused.
-/
import TransformCache.Options.Register
import TransformCache.Proofs.Json.Fields
import TransformCache.Proofs.Json.Settle
import TransformCache.Proofs.Keyed

namespace TransformCache.Options

open Json (Picks Guided Field Once takeAll)

-- =============================================================== the members

/-- The names that are known. -/
def known : List String :=
  ["only", "ignore", "cache", "cacheSourceRoot", "projectName", "extensions"]

def writeTexts (items : List String) : Json := .array (items.map .string)

def writePath (p : FilePath) : Json := .string p.text

/-- The members can be read as options: each known name occurs at most once, and
is `null` or of its type, and every other member means something. -/
structure Acceptable (ms : List (String × Json)) : Prop where
  once : ∀ name ∈ known, (ms.filter (·.1 = name)).length ≤ 1
  only : ∀ x, ("only", x) ∈ ms → x = .null ∨ ∃ items, x = writeTexts items
  ignore : ∀ x, ("ignore", x) ∈ ms → x = .null ∨ ∃ items, x = writeTexts items
  cache : ∀ x, ("cache", x) ∈ ms → x = .null ∨ ∃ b, x = .bool b
  cacheSourceRoot : ∀ x, ("cacheSourceRoot", x) ∈ ms → x = .null ∨ ∃ s, x = .string s
  projectName : ∀ x, ("projectName", x) ∈ ms → x = .null ∨ ∃ s, x = .string s
  extensions : ∀ x, ("extensions", x) ∈ ms → x = .null ∨ ∃ items, x = writeTexts items
  settles : ∀ name x, (name, x) ∈ ms → name ∉ known → ∃ y, Json.settle x = .ok y

/-- The options that the members make. -/
structure OfMembers (ms : List (String × Json)) (o : Options) : Prop where
  only : Field writeTexts "only" ms o.only
  ignore : Field writeTexts "ignore" ms o.ignore
  cache : Field .bool "cache" ms o.cache
  cacheSourceRoot : Field writePath "cacheSourceRoot" ms o.cacheSourceRoot
  projectName : Field .string "projectName" ms o.projectName
  extensions : Field writeTexts "extensions" ms o.extensions
  settles : ∀ name x, (name, x) ∈ ms → name ∉ known → ∃ y, Json.settle x = .ok y
  /-- Every other member is an option of the engine, the last one of its name. -/
  transform : ∀ key, o.transform.get? key
    = if key ∈ known then none else (Keyed.last? key ms).bind Json.settled?
  log : o.log = none
  debug : o.debug = none

-- ============================================================ reading members

def texts? : Json → Option (List String) := Json.allOf Json.text?

def path? (x : Json) : Option FilePath := (Json.text? x).map FilePath.mk

theorem undoes_texts : Json.Undoes texts? writeTexts := Json.undoes_text.allOf

theorem undoes_path : Json.Undoes path? writePath :=
  Json.undoes_text.map fun s p => by cases p; simp

theorem picks_texts (depth : Nat) : Picks (texts depth) (Json.tree depth) texts? :=
  Json.picks_listOf (Json.picks_stringOf "a string") depth

theorem picks_pathText (depth : Nat) : Picks pathText (Json.tree depth) path? :=
  (Json.picks_stringOf "path string" depth).mapValue FilePath.mk

/-- How a member is taken, in whatever way its value was read. -/
def Reading.take (r : Reading) (key : String) (x : Json) : Option Reading :=
  if key = "only" then
    (Json.once (Json.orNull texts?) r.only x).map fun only => { r with only }
  else if key = "ignore" then
    (Json.once (Json.orNull texts?) r.ignore x).map fun ignore => { r with ignore }
  else if key = "cache" then
    (Json.once (Json.orNull Json.bool?) r.cache x).map fun cache => { r with cache }
  else if key = "cacheSourceRoot" then
    (Json.once (Json.orNull path?) r.cacheSourceRoot x).map
      fun cacheSourceRoot => { r with cacheSourceRoot }
  else if key = "projectName" then
    (Json.once (Json.orNull Json.text?) r.projectName x).map
      fun projectName => { r with projectName }
  else if key = "extensions" then
    (Json.once (Json.orNull texts?) r.extensions x).map fun extensions => { r with extensions }
  else some { r with others := (key, x) :: r.others }

/-- A member of a known name. -/
inductive Name : String → Prop
  | only : Name "only"
  | ignore : Name "ignore"
  | cache : Name "cache"
  | cacheSourceRoot : Name "cacheSourceRoot"
  | projectName : Name "projectName"
  | extensions : Name "extensions"
  | other {key : String} (h : key ∉ known) : Name key

theorem name (key : String) : Name key := by
  by_cases h : key ∈ known
  · simp only [known, List.mem_cons, List.not_mem_nil, or_false] at h
    rcases h with rfl | rfl | rfl | rfl | rfl | rfl
    · exact .only
    · exact .ignore
    · exact .cache
    · exact .cacheSourceRoot
    · exact .projectName
    · exact .extensions
  · exact .other h

/-- A member that is no field is kept for the engine. -/
theorem take_of_not_known {key : String} (h : key ∉ known) (r : Reading) (x : Json) :
    r.take key x = some { r with others := (key, x) :: r.others } := by
  simp only [known, List.mem_cons, List.not_mem_nil, or_false, not_or] at h
  obtain ⟨honly, hignore, hcache, hroot, hname, hextensions⟩ := h
  simp only [Reading.take, if_neg honly, if_neg hignore, if_neg hcache, if_neg hroot, if_neg hname,
    if_neg hextensions]

/-- Members are judged as they are read. -/
theorem guided_memberRule (depth : Nat) :
    Guided (memberRule depth) (Json.tree depth) Reading.take where
  refuse r key x hrefuse := by
    have hseen : r.seen key = true := by
      unfold memberRule at hrefuse
      by_contra hunseen
      simp [hunseen] at hrefuse
    cases name key with
    | other h =>
        simp only [known, List.mem_cons, List.not_mem_nil, or_false, not_or] at h
        simp [Reading.seen, h] at hseen
    | _ =>
        simp only [Reading.seen, String.reduceEq, if_true, if_false] at hseen
        simp [Reading.take, Json.once_of_isSome hseen]
  member r key hrefuse := by
    have hunseen : r.seen key = false := by
      unfold memberRule at hrefuse
      by_contra hseen
      simp [hseen] at hrefuse
    cases name key with
    | only =>
        have hnone : r.only = none := by simpa [Reading.seen] using hunseen
        exact (Json.picks_optional (picks_texts depth)).once hnone fun only => { r with only }
    | ignore =>
        have hnone : r.ignore = none := by simpa [Reading.seen] using hunseen
        exact (Json.picks_optional (picks_texts depth)).once hnone fun ignore => { r with ignore }
    | cache =>
        have hnone : r.cache = none := by simpa [Reading.seen] using hunseen
        exact (Json.picks_optional (Json.picks_boolean depth)).once hnone
          fun cache => { r with cache }
    | cacheSourceRoot =>
        have hnone : r.cacheSourceRoot = none := by simpa [Reading.seen] using hunseen
        exact (Json.picks_optional (picks_pathText depth)).once hnone
          fun cacheSourceRoot => { r with cacheSourceRoot }
    | projectName =>
        have hnone : r.projectName = none := by simpa [Reading.seen] using hunseen
        exact (Json.picks_optional (Json.picks_stringOf "a string" depth)).once hnone
          fun projectName => { r with projectName }
    | extensions =>
        have hnone : r.extensions = none := by simpa [Reading.seen] using hunseen
        exact (Json.picks_optional (picks_texts depth)).once hnone
          fun extensions => { r with extensions }
    | other h =>
        have htree := (Json.picks_self (Json.tree depth)).mapValue fun v =>
          { r with others := (key, v) :: r.others }
        have htake : r.take key = fun x => some { r with others := (key, x) :: r.others } :=
          funext (take_of_not_known h r)
        rw [htake]
        simp only [known, List.mem_cons, List.not_mem_nil, or_false, not_or] at h
        obtain ⟨honly, hignore, hcache, hroot, hname, hextensions⟩ := h
        simp only [memberRule, if_neg honly, if_neg hignore, if_neg hcache, if_neg hroot,
          if_neg hname, if_neg hextensions]
        exact htree

/-- The fields are taken each for itself, and what is no field is kept. -/
theorem takeAll_take_iff (ms : List (String × Json)) :
    ∀ r left : Reading, takeAll Reading.take r ms = some left ↔
      Once (Json.orNull texts?) "only" ms r.only left.only ∧
      Once (Json.orNull texts?) "ignore" ms r.ignore left.ignore ∧
      Once (Json.orNull Json.bool?) "cache" ms r.cache left.cache ∧
      Once (Json.orNull path?) "cacheSourceRoot" ms r.cacheSourceRoot left.cacheSourceRoot ∧
      Once (Json.orNull Json.text?) "projectName" ms r.projectName left.projectName ∧
      Once (Json.orNull texts?) "extensions" ms r.extensions left.extensions ∧
      left.others = (ms.filter (·.1 ∉ known)).reverse ++ r.others := by
  induction ms with
  | nil =>
      intro r left
      simp only [Json.takeAll_nil, Option.some.injEq, Json.once_nil, List.filter_nil,
        List.reverse_nil, List.nil_append]
      constructor
      · rintro rfl
        exact ⟨rfl, rfl, rfl, rfl, rfl, rfl, rfl⟩
      · cases r
        cases left
        rintro ⟨rfl, rfl, rfl, rfl, rfl, rfl, rfl⟩
        rfl
  | cons m ms ih =>
      intro r left
      obtain ⟨key, x⟩ := m
      rw [Json.takeAll_cons]
      simp only
      by_cases hknown : key ∈ known
      · have hfilter : ((key, x) :: ms).filter (·.1 ∉ known) = ms.filter (·.1 ∉ known) :=
          List.filter_cons_of_neg (by simpa using hknown)
        cases name key with
        | other h => exact absurd hknown h
        | _ =>
            -- one field is taken, and the members after it are the same to all others
            rw [Reading.take]
            simp only [String.reduceEq, if_true, if_false, Option.bind_map,
              Option.bind_eq_some_iff, Function.comp_def, ih, Json.once_cons, hfilter]
            grind
      · have hother : ∀ name ∈ known, key ≠ name := fun name hname heq => hknown (heq ▸ hname)
        have hfilter : ((key, x) :: ms).filter (·.1 ∉ known)
            = (key, x) :: ms.filter (·.1 ∉ known) :=
          List.filter_cons_of_pos (by simpa using hknown)
        rw [take_of_not_known hknown, hfilter]
        simp only [Option.bind_some, ih, List.reverse_cons, List.append_assoc, List.singleton_append,
          Json.once_cons_ne (hother "only" (by decide)),
          Json.once_cons_ne (hother "ignore" (by decide)),
          Json.once_cons_ne (hother "cache" (by decide)),
          Json.once_cons_ne (hother "cacheSourceRoot" (by decide)),
          Json.once_cons_ne (hother "projectName" (by decide)),
          Json.once_cons_ne (hother "extensions" (by decide))]

-- ========================================================= judging the whole

/-- The options that the members of an object make. -/
def ofMembers? (ms : List (String × Json)) : Option Options :=
  (takeAll Reading.take {} ms).bind fun r => r.finish.toOption

theorem finish_eq_ok_iff {r : Reading} {o : Options} :
    r.finish = .ok o ↔ ∃ ms, Members.traverse Json.settled? r.others.reverse = some ms ∧
      o = r.options (Keyed.ofList ms) := by
  rw [Reading.finish, map_eq_ok]
  simp only [← Json.toOption_settleMembers, toOption_eq_some, eq_comm (a := o)]

/-- What is kept for the engine is the last member of each name that is not known, if
all of them mean something. -/
theorem exists_ofList_iff {ms : List (String × Json)} {transform : EngineOptions} :
    (∃ kept, Members.traverse Json.settled? (ms.filter (·.1 ∉ known)) = some kept ∧
        transform = Keyed.ofList kept)
      ↔ (∀ name x, (name, x) ∈ ms → name ∉ known → ∃ y, Json.settle x = .ok y) ∧
        ∀ key, transform.get? key
          = if key ∈ known then none else (Keyed.last? key ms).bind Json.settled? := by
  have hsettles : (∃ kept, Members.traverse Json.settled? (ms.filter (·.1 ∉ known)) = some kept)
      ↔ ∀ name x, (name, x) ∈ ms → name ∉ known → ∃ y, Json.settle x = .ok y := by
    rw [Members.exists_traverse_iff]
    simp [Json.settled?, toOption_eq_some]
  have hget : ∀ kept, Members.traverse Json.settled? (ms.filter (·.1 ∉ known)) = some kept →
      ∀ key, (Keyed.ofList kept).get? key
        = if key ∈ known then none else (Keyed.last? key ms).bind Json.settled? := by
    intro kept hkept key
    rw [Keyed.get?_ofList, Keyed.last?_traverse hkept, Keyed.last?_filter fun name => name ∉ known]
    by_cases h : key ∈ known
    · simp [h]
    · simp [h]
  rw [← hsettles]
  constructor
  · rintro ⟨kept, hkept, rfl⟩
    exact ⟨⟨kept, hkept⟩, hget kept hkept⟩
  · rintro ⟨⟨kept, hkept⟩, htransform⟩
    exact ⟨kept, hkept, Keyed.ext_get? fun key => (htransform key).trans (hget kept hkept key).symm⟩

theorem field_texts_iff {name : String} {ms : List (String × Json)}
    {items : Option (List String)} :
    (∃ left, Once (Json.orNull texts?) name ms none left ∧ left.getD none = items)
      ↔ Field writeTexts name ms items :=
  Json.once_orNull_iff undoes_texts fun _ h => by cases h

theorem field_bool_iff {name : String} {ms : List (String × Json)} {b : Option Bool} :
    (∃ left, Once (Json.orNull Json.bool?) name ms none left ∧ left.getD none = b)
      ↔ Field .bool name ms b :=
  Json.once_orNull_iff Json.undoes_bool fun _ h => by cases h

theorem field_path_iff {name : String} {ms : List (String × Json)} {p : Option FilePath} :
    (∃ left, Once (Json.orNull path?) name ms none left ∧ left.getD none = p)
      ↔ Field writePath name ms p :=
  Json.once_orNull_iff undoes_path fun _ h => by cases h

theorem field_text_iff {name : String} {ms : List (String × Json)} {s : Option String} :
    (∃ left, Once (Json.orNull Json.text?) name ms none left ∧ left.getD none = s)
      ↔ Field .string name ms s :=
  Json.once_orNull_iff Json.undoes_text fun _ h => by cases h

theorem ofMembers?_eq_some_iff {ms : List (String × Json)} {o : Options} :
    ofMembers? ms = some o ↔ o.OfMembers ms := by
  unfold ofMembers?
  simp only [Option.bind_eq_some_iff, toOption_eq_some, takeAll_take_iff, finish_eq_ok_iff]
  constructor
  · rintro ⟨r, ⟨honly, hignore, hcache, hroot, hname, hextensions, hothers⟩, kept, hkept, rfl⟩
    rw [hothers, List.append_nil, List.reverse_reverse] at hkept
    obtain ⟨hsettles, htransform⟩ := exists_ofList_iff.1 ⟨kept, hkept, rfl⟩
    exact {
      only := field_texts_iff.1 ⟨r.only, honly, rfl⟩
      ignore := field_texts_iff.1 ⟨r.ignore, hignore, rfl⟩
      cache := field_bool_iff.1 ⟨r.cache, hcache, rfl⟩
      cacheSourceRoot := field_path_iff.1 ⟨r.cacheSourceRoot, hroot, rfl⟩
      projectName := field_text_iff.1 ⟨r.projectName, hname, rfl⟩
      extensions := field_texts_iff.1 ⟨r.extensions, hextensions, rfl⟩
      settles := hsettles
      transform := htransform
      log := rfl
      debug := rfl }
  · intro h
    obtain ⟨only, honly, hgetOnly⟩ := field_texts_iff.2 h.only
    obtain ⟨ignore, hignore, hgetIgnore⟩ := field_texts_iff.2 h.ignore
    obtain ⟨cache, hcache, hgetCache⟩ := field_bool_iff.2 h.cache
    obtain ⟨root, hroot, hgetRoot⟩ := field_path_iff.2 h.cacheSourceRoot
    obtain ⟨name, hname, hgetName⟩ := field_text_iff.2 h.projectName
    obtain ⟨extensions, hextensions, hgetExtensions⟩ := field_texts_iff.2 h.extensions
    obtain ⟨kept, hkept, htransform⟩ := exists_ofList_iff.2 ⟨h.settles, h.transform⟩
    refine ⟨⟨only, ignore, cache, root, name, extensions, (ms.filter (·.1 ∉ known)).reverse⟩,
      ⟨honly, hignore, hcache, hroot, hname, hextensions, (List.append_nil _).symm⟩, kept, ?_, ?_⟩
    · rwa [List.reverse_reverse]
    · obtain ⟨_, _, _, _, _, _, log, debug, _⟩ := o
      obtain rfl : log = none := h.log
      obtain rfl : debug = none := h.debug
      simp only [Reading.options, hgetOnly, hgetIgnore, hgetCache, hgetRoot, hgetName,
        hgetExtensions, ← htransform]

/-- The members can be read as options if they make some. -/
theorem acceptable_iff {ms : List (String × Json)} :
    Acceptable ms ↔ ∃ o : Options, o.OfMembers ms := by
  have hpath : ∀ x : Json, (∃ s, x = .string s) ↔ ∃ p, x = writePath p := fun x =>
    ⟨fun ⟨s, hs⟩ => ⟨⟨s⟩, hs⟩, fun ⟨p, hp⟩ => ⟨p.text, hp⟩⟩
  constructor
  · intro h
    have hroot := h.cacheSourceRoot
    simp only [hpath] at hroot
    obtain ⟨only, honly⟩ := Json.exists_field_iff.2 ⟨h.once "only" (by decide), h.only⟩
    obtain ⟨ignore, hignore⟩ := Json.exists_field_iff.2 ⟨h.once "ignore" (by decide), h.ignore⟩
    obtain ⟨cache, hcache⟩ := Json.exists_field_iff.2 ⟨h.once "cache" (by decide), h.cache⟩
    obtain ⟨root, hroot⟩ :=
      Json.exists_field_iff.2 ⟨h.once "cacheSourceRoot" (by decide), hroot⟩
    obtain ⟨name, hname⟩ :=
      Json.exists_field_iff.2 ⟨h.once "projectName" (by decide), h.projectName⟩
    obtain ⟨extensions, hextensions⟩ :=
      Json.exists_field_iff.2 ⟨h.once "extensions" (by decide), h.extensions⟩
    obtain ⟨kept, hkept⟩ :
        ∃ kept, Members.traverse Json.settled? (ms.filter (·.1 ∉ known)) = some kept := by
      rw [Members.exists_traverse_iff]
      simpa [Json.settled?, toOption_eq_some] using h.settles
    obtain ⟨hsettles, htransform⟩ := exists_ofList_iff.1 ⟨kept, hkept, rfl⟩
    exact ⟨⟨only, ignore, cache, root, name, extensions, none, none, Keyed.ofList kept⟩,
      honly, hignore, hcache, hroot, hname, hextensions, hsettles, htransform, rfl, rfl⟩
  · rintro ⟨o, h⟩
    have honly := Json.exists_field_iff.1 ⟨_, h.only⟩
    have hignore := Json.exists_field_iff.1 ⟨_, h.ignore⟩
    have hcache := Json.exists_field_iff.1 ⟨_, h.cache⟩
    have hroot := Json.exists_field_iff.1 ⟨_, h.cacheSourceRoot⟩
    have hname := Json.exists_field_iff.1 ⟨_, h.projectName⟩
    have hextensions := Json.exists_field_iff.1 ⟨_, h.extensions⟩
    simp only [← hpath] at hroot
    refine ⟨?_, honly.2, hignore.2, hcache.2, hroot.2, hname.2, hextensions.2, h.settles⟩
    simp only [known, List.forall_mem_cons, List.not_mem_nil, false_imp_iff, implies_true, and_true]
    exact ⟨honly.1, hignore.1, hcache.1, hroot.1, hname.1, hextensions.1⟩

-- ============================================================= whole texts

theorem picks_read :
    Picks (Json.objectOf "struct RegisterOptions" Json.depthLimit
        (memberRule (Json.depthLimit - 1)) {} Reading.finish)
      (Json.memberList Json.depthLimit (Json.tree (Json.depthLimit - 1))) ofMembers? :=
  (guided_memberRule (Json.depthLimit - 1)).picks "struct RegisterOptions" Json.depthLimit {}
    Reading.finish

/-- Options are read from a text if its members make them. -/
theorem parse_eq_ok_iff_ofMembers {text : String} {o : Options} :
    parse text = .ok o ↔
      ∃ ms, Json.textMembers (Utf8.encode text) = .ok ms ∧ o.OfMembers ms := by
  have hread : parse text = .ok o ↔ read text = .ok o := by
    unfold parse
    cases read text with
    | error reason => simp
    | ok found => simp
  rw [hread, read, picks_read.document_eq_ok_iff]
  simp only [ofMembers?_eq_some_iff]
  rfl

/-- A text is read as options if it is an object whose members, in the order of
the text, are acceptable, and as the options that they make. Any other text is
a fault in the configuration. A value in which no object stands for a text is
meant as it is, sorted. -/
theorem parse_options_iff (text : String) :
    ((∃ o, parse text = .ok o) ↔
      ∃ ms, Json.textMembers (Utf8.encode text) = .ok ms ∧ Acceptable ms) ∧
    (∀ o, parse text = .ok o ↔
      ∃ ms, Json.textMembers (Utf8.encode text) = .ok ms ∧ o.OfMembers ms) ∧
    ((∃ o, parse text = .ok o) ∨ ∃ reason, parse text = .error (.config (.malformed reason))) ∧
    (∀ ms, Json.document (Json.tree Json.depthLimit) (Utf8.encode text) = .ok (.object ms) ↔
      Json.textMembers (Utf8.encode text) = .ok ms) ∧
    ∀ x : Json, x.Unmarked → Json.settle x = .ok x.sorted := by
  refine ⟨?_, fun o => parse_eq_ok_iff_ofMembers, ?_, fun ms => Json.document_eq_object_iff,
    fun x => Json.settle_of_unmarked⟩
  · simp only [parse_eq_ok_iff_ofMembers, acceptable_iff]
    constructor
    · rintro ⟨o, ms, hms, ho⟩
      exact ⟨ms, hms, o, ho⟩
    · rintro ⟨ms, hms, o, ho⟩
      exact ⟨o, ms, hms, ho⟩
  · unfold parse
    cases read text with
    | error reason => exact .inr ⟨reason, rfl⟩
    | ok o => exact .inl ⟨o, rfl⟩

/-- Members with a field that is `null`, one that is set, and two options of the engine
that come back; of names that are nearly known, too. -/
def several : List (String × Json) :=
  [("x", .object []), ("only", .null), ("project_name", .string "b"), ("projectName", .string "a"),
    ("x", .array [.int 1])]

/-- The general statement over these members. -/
theorem parse_options_iff_several :
    parse (Json.object several).compact = .ok {
      projectName := some "a"
      transform := Keyed.ofList [("project_name", .string "b"), ("x", .array [.int 1])] } := by
  have hplain : Json.PlainMembers several := by
    simp [several, Json.PlainMembers, Json.Plain, Json.PlainItems, Json.IsWhole, Members.Sorted]
  have hms := Json.textMembers_of_plain hplain (by decide)
  exact ((parse_options_iff _).2.1 _).2 ⟨several, hms, ofMembers?_eq_some_iff.1 rfl⟩

/-- An option of the engine whose value stands for a text. -/
def heldPresets : List (String × Json) := [("presets", .object [(Json.rawKey, .string "[1]")])]

/-- Its value is not the object that was written. -/
theorem presets_of_heldPresets :
    Json.textMembers (Utf8.encode (Json.object heldPresets).compact) = .ok heldPresets ∧
      parse (Json.object heldPresets).compact
        = .ok { transform := Keyed.ofList [("presets", .array [.int 1])] } := by
  have hplain : Json.PlainMembers heldPresets := by
    simp [heldPresets, Json.PlainMembers, Json.Plain, Members.Sorted]
  have hms := Json.textMembers_of_plain hplain (by decide)
  exact ⟨hms, parse_eq_ok_iff_ofMembers.2 ⟨heldPresets, hms, ofMembers?_eq_some_iff.1 rfl⟩⟩

end TransformCache.Options
