import SampleSchema.Proofs.Loadability
import SampleSchema.Proofs.ReadFaults
import SampleSchema.Proofs.Reload
import SampleSchema.Proofs.TextSamples
/-!
# What a session refuses

A text that is handed over as a sample or as a document can be refused for three reasons: it cannot
be decoded, it is no document of an object, or it has an integer of too many digits. In each case
the session stays as it was.

* `Error.isUndecodable` and `Error.isUnloadable` are the errors of the first two kinds;
  `Session.step_of_text_eq_error` is the theorem.
* `Session.not_isUndecodable_repunit`: the third reason is reported as an error of another kind.
-/

namespace SampleSchema

/-! ## Errors by kind -/

/-- The errors of a text that is no UTF-8 or no JSON. -/
def Error.isUndecodable : Error → Bool
  | .malformedSample _ | .undecodableSample _ => true
  | _ => false

/-- The errors of a value that is no object schema, or has a part that is no schema. -/
def Error.isUnloadable : Error → Bool
  | .rootNotObject _ | .notSchemaObject _ | .badType _ | .propertiesNotObject => true
  | _ => false

/-! ## Loading -/

theorem Error.isUnloadable_of_isMalformedSchema {error : Error}
    (h : error.isMalformedSchema = true) : error.isUnloadable = true := by
  cases error with
  | notSchemaObject found => rfl
  | badType found => rfl
  | propertiesNotObject => rfl
  | _ => exact nomatch h

namespace Session

theorem isUnloadable_of_loadable {v : Value} {error : Error} (h : loadable v = .error error) :
    error.isUnloadable = true := by
  have hloading := loading_loadable v
  rw [h] at hloading
  cases hloading with
  | otherRoot type hroot => rfl
  | malformed hroot herror hw hmisshapen => exact error.isUnloadable_of_isMalformedSchema herror

theorem isUnloadable_of_loadValue {session : Session} {v : Value} {error : Error}
    (h : session.loadValue v = .error error) : error.isUnloadable = true := by
  rcases except_bind_eq_error h with hload | ⟨loaded, -, hlast⟩
  · exact isUnloadable_of_loadable hload
  · exact nomatch hlast

/-! ## Decoding -/

/-- The errors of a text that is not read: it cannot be decoded, or there are too many digits in
what was decoded. -/
def IsUnread (text : Except Text.Utf8Fault (List Char)) (error : Error) : Prop :=
  error.isUndecodable = true ∨ error = .tooManyDigits ∧ ∃ cs, text = .ok cs ∧ Json.HasLongRun cs

theorem isUnread_of_parse {text : String} {error : Error} (h : parse text = .error error) :
    IsUnread (.ok text.toList) error := by
  unfold parse parseIn at h
  split at h
  · exact nomatch h
  · rename_i hread
    exact .inr ⟨(Except.error.inj h).symm, _, rfl, Json.hasLongRun_of_read hread⟩
  · rw [← Except.error.inj h]
    exact .inl rfl

theorem isUnread_of_parseOctets {octets : List UInt8} {error : Error}
    (h : parseOctets octets = .error error) : IsUnread (Text.decodeUtf8 octets) error := by
  unfold parseOctets at h
  split at h
  · rename_i cs hdecode
    have hunread := isUnread_of_parse h
    rw [String.toList_ofList] at hunread
    rw [hdecode]
    exact hunread
  · rw [← Except.error.inj h]
    exact .inl rfl

/-! ## Calls that hand over a text -/

/-- The characters that a call hands over as a text, if it does. Octets need not stand for any. -/
def Call.text? : Call → Option (Except Text.Utf8Fault (List Char))
  | .addText text | .load (.str text) => some (.ok text.toList)
  | .addOctets octets | .load (.bytes octets) => some (Text.decodeUtf8 octets)
  | _ => none

/-- A change that is refused leaves the session alone. -/
theorem change_eq_error {session : Session} {result : Except Error (Session × List Notice)}
    {error : Error} (h : (session.change result).2 = .error error) :
    (session.change result).1 = session ∧ result = .error error := by
  cases result with
  | ok changed => exact nomatch h
  | error fault =>
    obtain rfl := Except.error.inj h
    exact ⟨rfl, rfl⟩

section Change

variable {session : Session} {text : Except Text.Utf8Fault (List Char)} {read : Except Error Value}
  (hread : ∀ error, read = .error error → IsUnread text error) {error : Error}
include hread

theorem change_add_eq_error
    (h : (session.change (do return session.add (← read))).2 = .error error) :
    (session.change (do return session.add (← read))).1 = session ∧ IsUnread text error := by
  obtain ⟨hsame, hresult⟩ := change_eq_error h
  rcases except_bind_eq_error hresult with hfault | ⟨v, -, hlast⟩
  · exact ⟨hsame, hread error hfault⟩
  · exact nomatch hlast

theorem change_loadValue_eq_error
    (h : (session.change (do session.loadValue (← read))).2 = .error error) :
    (session.change (do session.loadValue (← read))).1 = session ∧
      (IsUnread text error ∨ error.isUnloadable = true) := by
  obtain ⟨hsame, hresult⟩ := change_eq_error h
  rcases except_bind_eq_error hresult with hfault | ⟨v, -, hload⟩
  · exact ⟨hsame, .inl (hread error hfault)⟩
  · exact ⟨hsame, .inr (isUnloadable_of_loadValue hload)⟩

end Change

/-- **Why a text is refused.** A call that hands over a text, or octets, either succeeds or leaves the
session exactly as it was. It is refused because the text cannot be decoded or, where it was to be
loaded, because it is no document of an object. The one other reason is an integer of too many
digits, and then there is a run of so many digits in the text. -/
theorem step_of_text_eq_error (session : Session) {call : Call}
    {text : Except Text.Utf8Fault (List Char)} (htext : call.text? = some text) {error : Error}
    (herror : (session.step call).2 = .error error) :
    (session.step call).1 = session ∧
      (error.isUndecodable = true ∨ (call.isAdd = false ∧ error.isUnloadable = true) ∨
        error = .tooManyDigits ∧ ∃ cs, text = .ok cs ∧ Json.HasLongRun cs) := by
  have hrefused : (session.step call).1 = session ∧ IsUnread text error ∨
      (session.step call).1 = session ∧ call.isAdd = false ∧ error.isUnloadable = true := by
    cases call with
    | addText s =>
      obtain rfl := Option.some.inj htext
      exact .inl (change_add_eq_error (fun _ => isUnread_of_parse) herror)
    | addOctets octets =>
      obtain rfl := Option.some.inj htext
      exact .inl (change_add_eq_error (fun _ => isUnread_of_parseOctets) herror)
    | load v =>
      cases v with
      | str s =>
        obtain rfl := Option.some.inj htext
        obtain ⟨hsame, hunread | hunloadable⟩ :=
          change_loadValue_eq_error (fun _ => isUnread_of_parse) herror
        · exact .inl ⟨hsame, hunread⟩
        · exact .inr ⟨hsame, rfl, hunloadable⟩
      | bytes octets =>
        obtain rfl := Option.some.inj htext
        obtain ⟨hsame, hunread | hunloadable⟩ :=
          change_loadValue_eq_error (fun _ => isUnread_of_parseOctets) herror
        · exact .inl ⟨hsame, hunread⟩
        · exact .inr ⟨hsame, rfl, hunloadable⟩
      | _ => exact nomatch htext
    | _ => exact nomatch htext
  rcases hrefused with ⟨hsame, hundecodable | hlong⟩ | ⟨hsame, hunloadable⟩
  · exact ⟨hsame, .inl hundecodable⟩
  · exact ⟨hsame, .inr (.inr hlong)⟩
  · exact ⟨hsame, .inr (.inl hunloadable)⟩

/-- An object schema whose properties are an array. -/
def listedDocument : Value :=
  .object [("type", .str "object"), ("properties", .list [])]

def listedText : String :=
  "\x7b\"type\":\"object\",\"properties\":[]\x7d"

theorem parse_listedText : parse listedText = .ok listedDocument := by
  have hindent : ∀ c ∈ "".toList, Json.isSpace c = true := fun _ hc => absurd hc List.not_mem_nil
  have hjson : listedDocument.everywhere Value.isJson = true := by decide
  exact parse_of_print hindent hjson rfl

theorem step_of_text_eq_error_listedText :
    (plainSession.step (.load (.str listedText))).1 = plainSession ∧
      (Error.propertiesNotObject.isUndecodable = true ∨
        ((Call.load (.str listedText)).isAdd = false ∧
          Error.propertiesNotObject.isUnloadable = true) ∨
        Error.propertiesNotObject = .tooManyDigits ∧
          ∃ cs, (.ok listedText.toList : Except Text.Utf8Fault (List Char)) = .ok cs ∧
            Json.HasLongRun cs) := by
  have herror : (plainSession.step (.load (.str listedText))).2 = .error .propertiesNotObject := by
    rw [step_load_text parse_listedText rfl]
    rfl
  exact step_of_text_eq_error plainSession rfl herror

/-- A repeated digit as an integer. -/
def repunit (length : Nat) : Json.Numeral :=
  ⟨false, List.replicate length '1', [], none⟩

theorem wellFormed_repunit {length : Nat} (hpos : 0 < length) : (repunit length).WellFormed where
  whole := by
    intro c hc
    rw [List.eq_of_mem_replicate hc]
    rfl
  leading := by
    obtain ⟨shorter, rfl⟩ := Nat.exists_eq_add_of_lt hpos
    exact .inr ⟨'1', List.replicate (0 + shorter) '1', rfl, by decide⟩
  fraction := nofun
  exponent := nofun

theorem value?_repunit {length : Nat} (hlong : Text.digitLimit < length) :
    (repunit length).value? = none := by
  have hlength : Text.digitLimit < (repunit length).whole.length := by
    rw [repunit, List.length_replicate]
    exact hlong
  exact if_pos hlength

theorem step_addText_repunit (session : Session) {length : Nat} (hlong : Text.digitLimit < length) :
    (session.step (.addText (String.ofList (repunit length).spelled))).2 =
      .error .tooManyDigits := by
  have hparse : parse (String.ofList (repunit length).spelled) = .error .tooManyDigits := by
    rw [parse, parseIn, String.toList_ofList,
      Json.read_longNumeral (wellFormed_repunit (Nat.zero_lt_of_lt hlong)) (value?_repunit hlong)]
  show (session.change (do return session.add (← parse _))).2 = _
  rw [hparse]
  rfl

/-- A text with one digit too many is refused, but not as a text that cannot be decoded. -/
theorem not_isUndecodable_repunit :
    ∃ error, (plainSession.step
        (.addText (String.ofList (repunit (Text.digitLimit + 1)).spelled))).2 = .error error ∧
      error.isUndecodable = false :=
  ⟨.tooManyDigits, step_addText_repunit plainSession (Nat.lt_succ_self _), rfl⟩

end Session

end SampleSchema
