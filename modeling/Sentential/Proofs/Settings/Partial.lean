import Sentential.Proofs.Json.Acceptance
import Sentential.Proofs.Json.Conformity
import Sentential.Settings

/-! Settings that are read from JSON objects. An object may give some of the settings, in any order
and among other members of any form; what it does not give has its default. -/

namespace Sentential

open Json

namespace Json

section Fields

variable {members : List (String × List Char)} {documents : List (Option String × Document)}
  (h : documents.map (Prod.map id some) = members.map (Prod.map some Document.ofText?))

include h

theorem keys_eq : documents.map Prod.fst = (members.map Prod.fst).map some := by
  have hkeys := congrArg (List.map Prod.fst) h
  simpa [List.map_map, Function.comp_def] using hkeys

theorem lookup_eq (name : String) :
    documents.lookup (some name) = (members.lookup name).bind Document.ofText? := by
  induction documents generalizing members with
  | nil =>
    cases members with
    | nil => rfl
    | cons member members => cases h
  | cons document documents ih =>
    cases members with
    | nil => cases h
    | cons member members =>
      obtain ⟨hfirst, hothers⟩ := List.cons_eq_cons.mp h
      obtain ⟨hkey, hvalue⟩ := Prod.mk.inj hfirst
      rw [List.lookup_cons, List.lookup_cons, ih hothers, show document.1 = some member.1 from hkey]
      by_cases hname : name = member.1
      · simp [hname, ← hvalue]
      · simp [beq_eq_false_iff_ne.mpr hname]

/-- The fields of an object by the names of its members, none of which may occur twice. -/
theorem fieldsOfMembers?_eq (names : List String) :
    fieldsOfMembers? names documents =
      if ∀ name ∈ names, (members.map Prod.fst).count name ≤ 1 then
        some (names.map fun name => (members.lookup name).bind Document.ofText?)
      else none := by
  have hall : documents.all (·.1.isSome) = true := by
    have hmap : documents.all (·.1.isSome) = (documents.map Prod.fst).all (·.isSome) := by
      rw [List.all_map]
      rfl
    rw [hmap, keys_eq h, List.all_map]
    exact List.all_eq_true.mpr fun _ _ => rfl
  have hcount (name : String) :
      documents.countP (·.1 == some name) = (members.map Prod.fst).count name := by
    have hmap : documents.countP (·.1 == some name) =
        (documents.map Prod.fst).countP (· == some name) := by
      rw [List.countP_map]
      rfl
    rw [hmap, keys_eq h, List.countP_map]
    rfl
  have hlookup := lookup_eq h
  simp only [fieldsOfMembers?, hall, hcount, hlookup, Bool.true_and, List.all_eq_true,
    decide_eq_true_eq]

end Fields

/-- A field is read if it is given, and else it has its default. -/
theorem fieldOr_lookup {α : Type} {members : List (String × List Char)} {name : String}
    {standard given : α} {read? : Document → Option α}
    (h : ∀ member ∈ members, member.1 = name →
      (Document.ofText? member.2).bind read? = some given) :
    fieldOr standard read? ((members.lookup name).bind Document.ofText?) =
      some (if name ∈ members.map Prod.fst then given else standard) := by
  cases hlookup : members.lookup name with
  | none =>
    have hnot : name ∉ members.map Prod.fst := by
      intro hmem
      obtain ⟨member, hmember, rfl⟩ := List.mem_map.mp hmem
      have hne := List.lookup_eq_none_iff.mp hlookup member hmember
      simp at hne
    rw [if_neg hnot]
    rfl
  | some value =>
    obtain ⟨before, after, rfl, -⟩ := List.lookup_eq_some_iff.mp hlookup
    obtain ⟨document, hdocument, hread⟩ := Option.bind_eq_some_iff.mp (h (name, value) (by simp) rfl)
    rw [if_pos (by simp), Option.bind_some, show Document.ofText? value = _ from hdocument]
    exact hread

theorem ofText?_bool (value : Bool) :
    Document.ofText? (if value then "true" else "false").toList = some (.bool value) :=
  Reads.ofText? (.ofScans (scans_bool value))

theorem ofText?_toDigits {n : Nat} (h : n < UInt64.size) :
    Document.ofText? (Nat.toDigits 10 n) = some (.number (some (.integer n))) := by
  rw [← number?_toDigits h]
  exact Reads.ofText? (reads_number (numberText_toDigits n))

theorem word?_toNat (word : UInt64) :
    Document.word? (.number (some (.integer word.toNat))) = some word := by
  simp [Document.word?, word.toNat_lt]

end Json

namespace Settings

/-- The settings as they are written, each with its name. -/
def fieldTexts (settings : Settings) : List (String × List Char) :=
  [("strict_tokens", (if settings.strictTokens then "true" else "false").toList),
    ("heuristic_fallback", (if settings.heuristicFallback then "true" else "false").toList),
    ("max_plain_reply_len", Nat.toDigits 10 settings.maxPlainReplyLength.toNat)]

/-- The settings of which only those with certain names are given. -/
def given (settings : Settings) (names : List String) : Settings where
  strictTokens := if "strict_tokens" ∈ names then settings.strictTokens else standard.strictTokens
  heuristicFallback :=
    if "heuristic_fallback" ∈ names then settings.heuristicFallback else standard.heuristicFallback
  maxPlainReplyLength :=
    if "max_plain_reply_len" ∈ names then settings.maxPlainReplyLength
    else standard.maxPlainReplyLength

section Members

variable {text : String} {settings : Settings} {members : List (String × List Char)}
  (hvalues : ∀ member ∈ members, member.1 ∈ fields → member ∈ settings.fieldTexts)

include hvalues

theorem fieldOr_given {α : Type} {name : String} {value : List Char} {standard x : α}
    {read? : Document → Option α} (hname : name ∈ fields)
    (hunique : ∀ other, (name, other) ∈ settings.fieldTexts → other = value)
    (hread : (Document.ofText? value).bind read? = some x) :
    fieldOr standard read? ((members.lookup name).bind Document.ofText?) =
      some (if name ∈ members.map Prod.fst then x else standard) := by
  refine fieldOr_lookup ?_
  rintro member hmember rfl
  rw [hunique member.2 (hvalues member hmember hname)]
  exact hread

theorem ofJson_object (hobject : ObjectText text.toList members)
    (honce : ∀ name ∈ fields, (members.map Prod.fst).count name ≤ 1) :
    ofJson text = .ok (settings.given (members.map Prod.fst)) := by
  obtain ⟨documents, hdocument, hmap⟩ := hobject.ofText?
  let result := settings.given (members.map Prod.fst)
  have hstrict : fieldOr standard.strictTokens Document.bool?
      ((members.lookup "strict_tokens").bind Document.ofText?) = some result.strictTokens :=
    fieldOr_given hvalues (by decide) (by simp [fieldTexts])
      (congrArg (·.bind Document.bool?) (ofText?_bool settings.strictTokens))
  have hfallback : fieldOr standard.heuristicFallback Document.bool?
      ((members.lookup "heuristic_fallback").bind Document.ofText?) =
        some result.heuristicFallback :=
    fieldOr_given hvalues (by decide) (by simp [fieldTexts])
      (congrArg (·.bind Document.bool?) (ofText?_bool settings.heuristicFallback))
  have hlength : fieldOr standard.maxPlainReplyLength Document.word?
      ((members.lookup "max_plain_reply_len").bind Document.ofText?) =
        some result.maxPlainReplyLength := by
    have hread := congrArg (·.bind Document.word?)
      (ofText?_toDigits settings.maxPlainReplyLength.toNat_lt)
    exact fieldOr_given hvalues (by decide) (by simp [fieldTexts]) (hread.trans (word?_toNat _))
  rw [ofJson, hdocument, Option.bind_some, ofDocument?, Document.fields?,
    fieldsOfMembers?_eq hmap, if_pos honce]
  simp only [fields, List.map_cons, List.map_nil, Option.bind_eq_bind, Option.bind_some, hstrict,
    hfallback, hlength]
  rfl

end Members

theorem ofJson_repeated {text : String} {members : List (String × List Char)} {name : String}
    (hobject : ObjectText text.toList members) (hname : name ∈ fields)
    (hcount : 1 < (members.map Prod.fst).count name) : ofJson text = .error .invalidJson := by
  obtain ⟨documents, hdocument, hmap⟩ := hobject.ofText?
  have htwice : ¬∀ name ∈ fields, (members.map Prod.fst).count name ≤ 1 :=
    fun honce => Nat.not_le.mpr hcount (honce name hname)
  rw [ofJson, hdocument, Option.bind_some, ofDocument?, Document.fields?,
    fieldsOfMembers?_eq hmap, if_neg htwice]
  rfl

/-- The settings that are written are an object of all their fields. -/
theorem objectText_toJson (settings : Settings) :
    ObjectText settings.toJson.toList settings.fieldTexts := by
  have hlength : Number.text (.integer settings.maxPlainReplyLength.toNat) =
      Nat.toDigits 10 settings.maxPlainReplyLength.toNat := by
    simp [Number.text, Int.not_lt.mpr (Int.natCast_nonneg _)]
  let members : List (String × Value) := [("strict_tokens", .bool settings.strictTokens),
    ("heuristic_fallback", .bool settings.heuristicFallback),
    ("max_plain_reply_len", .number (.integer settings.maxPlainReplyLength.toNat))]
  have hvalues : ∀ member ∈ members, ValueText member.2.write := by
    have hnumber := ValueText.number (numberText_toDigits settings.maxPlainReplyLength.toNat)
    simp only [members, List.forall_mem_cons, Value.write, hlength]
    exact ⟨.bool _, .bool _, hnumber, by simp⟩
  have htexts : members.map (fun member => (member.1, member.2.write)) = settings.fieldTexts := by
    simp only [members, List.map_cons, List.map_nil, Value.write, hlength, fieldTexts]
  rw [toJson, Value.text, String.toList_ofList, ← htexts]
  exact objectText_write hvalues

/-- Settings are read from any object that gives some of them once, as they are written, among
members with other names; those that it does not give have their defaults. In particular settings
that are written are read back. No object may give one of them twice. -/
theorem ofJson_given (settings : Settings) :
    (∀ (text : String) (members : List (String × List Char)), ObjectText text.toList members →
      (∀ member ∈ members, member.1 ∈ fields → member ∈ settings.fieldTexts) →
      (∀ name ∈ fields, (members.map Prod.fst).count name ≤ 1) →
      ofJson text = .ok (settings.given (members.map Prod.fst))) ∧
    ofJson settings.toJson = .ok settings ∧
    ∀ (text : String) (members : List (String × List Char)), ObjectText text.toList members →
      ∀ name ∈ fields, 1 < (members.map Prod.fst).count name →
        ofJson text = .error .invalidJson := by
  refine ⟨fun text members hobject hvalues honce => ofJson_object hvalues hobject honce, ?_,
    fun text members hobject name hname hcount => ofJson_repeated hobject hname hcount⟩
  have hnames : settings.fieldTexts.map Prod.fst = fields := rfl
  have hread := ofJson_object (fun _ hmember _ => hmember) settings.objectText_toJson ?_
  · rwa [hnames] at hread
  · rw [hnames]
    decide

/-- Space, an array that is ignored, and an escape in the name of a setting. A setting that is not
given has its default, and where the name comes twice nothing is read. -/
theorem ofJson_given_escaped :
    let settings : Settings := ⟨true, false, 12⟩
    let text := "\x7b\"x\":[-1E9] ,\"\\u0073trict_tokens\":true\x7d"
    let members := [("x", "[-1E9]".toList), ("strict_tokens", "true".toList)]
    let repeated := "\x7b\"strict_tokens\":true,\"strict_tokens\":false\x7d"
    let twice := [("strict_tokens", "true".toList), ("strict_tokens", "false".toList)]
    (ObjectText text.toList members ∧
      (∀ member ∈ members, member.1 ∈ fields → member ∈ settings.fieldTexts) ∧
      (∀ name ∈ fields, (members.map Prod.fst).count name ≤ 1) ∧
      ofJson text = .ok ⟨true, true, 300⟩) ∧
    ObjectText repeated.toList twice ∧ "strict_tokens" ∈ fields ∧
      1 < (twice.map Prod.fst).count "strict_tokens" ∧ ofJson repeated = .error .invalidJson := by
  intro settings text members repeated twice
  have hdigit {c : Char} (hc : isDigit c = true) : Digits [c] :=
    ⟨List.cons_ne_nil c [], List.forall_mem_singleton.mpr hc⟩
  have hnumber : NumberText "-1E9".toList ⟨true, ['1'], none, some (false, ['9'])⟩ :=
    ⟨[], "E9".toList, .digits (by decide) (hdigit rfl), .none,
      .digits (by decide) (show ([], false) ∈ _ by decide) (hdigit rfl), rfl⟩
  have harray : ValueText "[-1E9]".toList := .array (.one (.number hnumber) (padded_self _))
  have hpad : Padded "[-1E9]".toList "[-1E9] ".toList :=
    ⟨[], [' '], spaces_nil, List.forall_mem_singleton.mpr (by decide), rfl⟩
  have hescaped : NameText "\"\\u0073trict_tokens\"".toList
      (.codeUnit 's'.toNat :: "trict_tokens".toList.map Quoted.piece) :=
    ⟨_, ⟨_, .codeUnit (i := 0) (j := 0) (k := 7) (l := 3) (by decide) (by decide) (by decide)
      (by decide) (Quoted.written_encode "trict_tokens".toList), rfl⟩, padded_self _⟩
  have hinside := MembersText.more (nameText_encode "x") harray hpad
    (.one hescaped (.bool true) (padded_self _))
  have hobject : ObjectText text.toList members := by
    refine ⟨_, _, hinside, ⟨[], [], spaces_nil, spaces_nil, by decide⟩, .cons ?_ (.cons ?_ .nil)⟩
    · exact ⟨Quoted.stands_pieces "x".toList, rfl⟩
    · exact ⟨.codeUnit 's' (Quoted.stands_pieces "trict_tokens".toList), rfl⟩
  have htwice : ObjectText repeated.toList twice := by
    let values : List (String × Value) :=
      [("strict_tokens", .bool true), ("strict_tokens", .bool false)]
    have hvalues : ∀ member ∈ values, ValueText member.2.write :=
      List.forall_mem_cons.mpr ⟨.bool true, List.forall_mem_singleton.mpr (.bool false)⟩
    have hwritten : (Value.object values).write = repeated.toList := by decide
    exact hwritten ▸ objectText_write hvalues
  have hvalues : ∀ member ∈ members, member.1 ∈ fields → member ∈ settings.fieldTexts :=
    List.forall_mem_cons.mpr ⟨fun h => absurd h (by decide),
      List.forall_mem_singleton.mpr fun _ => List.mem_cons_self⟩
  have honce : ∀ name ∈ fields, (members.map Prod.fst).count name ≤ 1 := by decide
  have hname : "strict_tokens" ∈ fields := List.mem_cons_self
  have hcount : 1 < (twice.map Prod.fst).count "strict_tokens" := by decide
  exact ⟨⟨hobject, hvalues, honce, (ofJson_given settings).1 text members hobject hvalues honce⟩,
    htwice, hname, hcount, (ofJson_given settings).2.2 repeated twice htwice _ hname hcount⟩

end Settings

end Sentential
