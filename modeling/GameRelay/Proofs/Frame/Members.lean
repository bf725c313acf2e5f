import GameRelay.Proofs.Frame.Response
import GameRelay.Proofs.Json.Accepted.Record

/-!
# Frames as objects

A frame is told by its members alone: those of the names it knows, each at most once,
in any order and among any others. The object may be written in any way that JSON
allows.
-/

set_option autoImplicit false

namespace GameRelay.Frame

open GameRelay.Json

def IsText (v : Value) : Prop := ∃ text, v = .text text

/-! ## Which members make a frame -/

structure Request.Fits (ms : List (String × Value)) : Prop where
  method : Once "method" IsText ms
  id : Once "id" (fun _ => True) ms
  params : AtMostOnce "params" (fun _ => True) ms

structure Request.From (ms : List (String × Value)) (r : Request) : Prop where
  method : valuesOf "method" ms = [.text r.method]
  id : valuesOf "id" ms = [r.id]
  params : valuesOf "params" ms = [r.params] ∨ valuesOf "params" ms = [] ∧ r.params = .null

structure Response.Fits (ms : List (String × Value)) : Prop where
  id : Once "id" (fun _ => True) ms
  result : AtMostOnce "result" (fun _ => True) ms
  error : AtMostOnce "error" (fun v => IsText v ∨ v = .null) ms

structure Response.From (ms : List (String × Value)) (r : Response) : Prop where
  id : valuesOf "id" ms = [r.id]
  result : valuesOf "result" ms = [r.result] ∨ valuesOf "result" ms = [] ∧ r.result = .null
  error : valuesOf "error" ms = [r.errorValue] ∨
    valuesOf "error" ms = [] ∧ r.errorValue = .null

structure Identity.Fits (ms : List (String × Value)) : Prop where
  name : Once "Name" IsText ms
  password : AtMostOnce "Password" IsText ms

structure Identity.From (ms : List (String × Value)) (g : Identity) : Prop where
  name : valuesOf "Name" ms = [.text g.name]
  password : valuesOf "Password" ms = [.text g.password] ∨
    valuesOf "Password" ms = [] ∧ g.password = ""

theorem Request.fits_iff {ms : List (String × Value)} : Fits ms ↔ ∃ r, From ms r := by
  constructor
  · rintro ⟨⟨_, hmethod, method, rfl⟩, ⟨id, hid, -⟩, hparams⟩
    rcases atMostOnce_iff.mp hparams with hnone | ⟨params, hone, -⟩
    · exact ⟨⟨method, .null, id⟩, hmethod, hid, .inr ⟨hnone, rfl⟩⟩
    · exact ⟨⟨method, params, id⟩, hmethod, hid, .inl hone⟩
  · rintro ⟨r, hmethod, hid, hparams⟩
    refine ⟨⟨_, hmethod, r.method, rfl⟩, ⟨r.id, hid, trivial⟩, atMostOnce_iff.mpr ?_⟩
    rcases hparams with hone | ⟨hnone, -⟩
    · exact .inr ⟨r.params, hone, trivial⟩
    · exact .inl hnone

theorem Response.fits_iff {ms : List (String × Value)} : Fits ms ↔ ∃ r, From ms r := by
  constructor
  · rintro ⟨⟨id, hid, -⟩, hresult, herror⟩
    have hfirst : ∃ result, valuesOf "result" ms = [result] ∨
        valuesOf "result" ms = [] ∧ result = .null := by
      rcases atMostOnce_iff.mp hresult with hnone | ⟨result, hone, -⟩
      · exact ⟨.null, .inr ⟨hnone, rfl⟩⟩
      · exact ⟨result, .inl hone⟩
    obtain ⟨result, hresult⟩ := hfirst
    rcases atMostOnce_iff.mp herror with hnone | ⟨_, hone, ⟨text, rfl⟩ | rfl⟩
    · exact ⟨⟨id, result, none⟩, hid, hresult, .inr ⟨hnone, rfl⟩⟩
    · exact ⟨⟨id, result, some text⟩, hid, hresult, .inl hone⟩
    · exact ⟨⟨id, result, none⟩, hid, hresult, .inl hone⟩
  · rintro ⟨r, hid, hresult, herror⟩
    refine ⟨⟨r.id, hid, trivial⟩, atMostOnce_iff.mpr ?_, atMostOnce_iff.mpr ?_⟩
    · rcases hresult with hone | ⟨hnone, -⟩
      · exact .inr ⟨r.result, hone, trivial⟩
      · exact .inl hnone
    · rcases herror with hone | ⟨hnone, -⟩
      · refine .inr ⟨r.errorValue, hone, ?_⟩
        unfold errorValue
        split
        · exact .inl ⟨_, rfl⟩
        · exact .inr rfl
      · exact .inl hnone

theorem Identity.fits_iff {ms : List (String × Value)} : Fits ms ↔ ∃ g, From ms g := by
  constructor
  · rintro ⟨⟨_, hname, name, rfl⟩, hpassword⟩
    rcases atMostOnce_iff.mp hpassword with hnone | ⟨_, hone, password, rfl⟩
    · exact ⟨⟨name, ""⟩, hname, .inr ⟨hnone, rfl⟩⟩
    · exact ⟨⟨name, password⟩, hname, .inl hone⟩
  · rintro ⟨g, hname, hpassword⟩
    refine ⟨⟨_, hname, g.name, rfl⟩, atMostOnce_iff.mpr ?_⟩
    rcases hpassword with hone | ⟨hnone, -⟩
    · exact .inr ⟨_, hone, g.password, rfl⟩
    · exact .inl hnone

theorem Request.from_iff {ms : List (String × Value)} {r : Request} :
    From ms r ↔ Row.Holds ms schema.fields r.row := by
  constructor
  · rintro ⟨hmethod, hid, hparams⟩
    refine ⟨.inl hmethod, ?_, .inl hid, trivial⟩
    rcases hparams with hone | ⟨hnone, hnull⟩
    · exact .inl hone
    · exact .inr ⟨hnone, congrArg some hnull.symm⟩
  · rintro ⟨hmethod | ⟨-, hmethod⟩, hparams, hid | ⟨-, hid⟩, -⟩
    · refine ⟨hmethod, hid, ?_⟩
      rcases hparams with hone | ⟨hnone, hnull⟩
      · exact .inl hone
      · exact .inr ⟨hnone, (Option.some.inj hnull).symm⟩
    · cases hid
    · cases hmethod
    · cases hmethod

theorem Response.from_iff {ms : List (String × Value)} {r : Response} :
    From ms r ↔ Row.Holds ms schema.fields r.row := by
  have hvalue : Kind.textOrNull.value r.error = r.errorValue := by
    obtain ⟨id, result, error⟩ := r
    cases error <;> rfl
  have hnull : r.errorValue = .null ↔ r.error = none := by
    obtain ⟨id, result, error⟩ := r
    cases error <;> simp [errorValue]
  constructor
  · rintro ⟨hid, hresult, herror⟩
    refine ⟨.inl hid, ?_, ?_, trivial⟩
    · rcases hresult with hone | ⟨hnone, hresult⟩
      · exact .inl hone
      · exact .inr ⟨hnone, congrArg some hresult.symm⟩
    · rcases herror with hone | ⟨hnone, herror⟩
      · exact .inl (hone.trans (by rw [← hvalue]))
      · exact .inr ⟨hnone, congrArg some (hnull.mp herror).symm⟩
  · rintro ⟨hid | ⟨-, hid⟩, hresult, herror, -⟩
    · refine ⟨hid, ?_, ?_⟩
      · rcases hresult with hone | ⟨hnone, hresult⟩
        · exact .inl hone
        · exact .inr ⟨hnone, (Option.some.inj hresult).symm⟩
      · rcases herror with hone | ⟨hnone, herror⟩
        · exact .inl (hone.trans (by rw [← hvalue]))
        · exact .inr ⟨hnone, hnull.mpr (Option.some.inj herror).symm⟩
    · cases hid

theorem Identity.from_iff {ms : List (String × Value)} {g : Identity} :
    From ms g ↔ Row.Holds ms schema.fields g.row := by
  constructor
  · rintro ⟨hname, hpassword⟩
    refine ⟨.inl hname, ?_, trivial⟩
    rcases hpassword with hone | ⟨hnone, hempty⟩
    · exact .inl hone
    · exact .inr ⟨hnone, congrArg some hempty.symm⟩
  · rintro ⟨hname | ⟨-, hname⟩, hpassword, -⟩
    · refine ⟨hname, ?_⟩
      rcases hpassword with hone | ⟨hnone, hempty⟩
      · exact .inl hone
      · exact .inr ⟨hnone, (Option.some.inj hempty).symm⟩
    · cases hname

/-! ## Which objects are frames -/

/-- How a frame with members of the given names is read from an object: `Fits` says
which members make one, and `From` whose members they are. -/
structure ReadByMembers {α : Type} (parse : String → Except ParseError α) (names : List String)
    (Fits : List (String × Value) → Prop) (From : List (String × Value) → α → Prop) : Prop where
  /-- It is read exactly from the objects whose members fit. -/
  accepted : ∀ text ms, ObjectText text ms → ((∃ a, parse text = .ok a) ↔ Fits ms)
  /-- What is read are the values of these members. -/
  fields : ∀ text ms, ObjectText text ms → ∀ a, parse text = .ok a ↔ From ms a
  /-- Neither the order of the members nor members of other names change what is read. -/
  unordered : ∀ text ms text' ms', ObjectText text ms → ObjectText text' ms' →
    (ms.filter fun member => names.contains member.1).Perm
      (ms'.filter fun member => names.contains member.1) →
    (parse text).toOption = (parse text').toOption
  /-- An object with two members of one of the names is refused. -/
  repeated : ∀ text ms, ObjectText text ms → ∀ key ∈ names, 1 < (valuesOf key ms).length →
    (parse text).toOption = none

theorem toOption_eq_of_iff {ε α : Type} {x y : Except ε α} (h : ∀ a, x = .ok a ↔ y = .ok a) :
    x.toOption = y.toOption := by
  cases x with
  | ok a => rw [(h a).mp rfl]
  | error e =>
    cases y with
    | ok a => cases (h a).mpr rfl
    | error e' => rfl

theorem map_eq_ok_iff_of_inverse {ε α β : Type} {x : Except ε α} {f : α → β} {g : β → α}
    (hfg : ∀ b, f (g b) = b) (hgf : ∀ a, g (f a) = a) {b : β} :
    x.map f = .ok b ↔ x = .ok (g b) := by
  constructor
  · intro h
    obtain ⟨a, rfl, rfl⟩ := ok_of_map h
    rw [hgf]
  · rintro rfl
    exact congrArg Except.ok (hfg b)

/-- It suffices that the frame is a record of its fields. -/
theorem readByMembers_of_schema {α : Type} {schema : Schema}
    (hnames : (schema.fields.map Field.name).Nodup) {parse : String → Except ParseError α}
    {Fits : List (String × Value) → Prop} {From : List (String × Value) → α → Prop}
    {row : α → Row schema.fields}
    (hparse : ∀ text a, parse text = .ok a ↔ schema.parse text = .ok (row a))
    (hfits : ∀ ms, Fits ms ↔ ∃ a, From ms a)
    (hfrom : ∀ ms a, From ms a ↔ Row.Holds ms schema.fields (row a)) :
    ReadByMembers parse (schema.fields.map Field.name) Fits From := by
  have hfields : ∀ text ms, ObjectText text ms → ∀ a, parse text = .ok a ↔ From ms a := by
    intro text ms h a
    rw [hparse, parse_object_iff hnames h, hfrom]
  constructor
  case accepted =>
    intro text ms h
    simp only [hfields text ms h, hfits]
  case fields => exact hfields
  case unordered =>
    intro text ms text' ms' h h' hperm
    have hvalues : ∀ key ∈ schema.fields.map Field.name,
        (valuesOf key ms).Perm (valuesOf key ms') := by
      intro key hkey
      have hknown : (schema.fields.map Field.name).contains key = true := by simpa using hkey
      rw [← valuesOf_filter hknown ms, ← valuesOf_filter hknown ms']
      exact valuesOf_perm hperm key
    apply toOption_eq_of_iff
    intro a
    rw [hfields text ms h, hfields text' ms' h', hfrom, hfrom]
    exact ⟨holds_of_perm hvalues, holds_of_perm fun key hkey => (hvalues key hkey).symm⟩
  case repeated =>
    intro text ms h key hkey htwice
    cases hread : parse text with
    | error e => rfl
    | ok a =>
      have hholds := (hfrom ms a).mp ((hfields text ms h a).mp hread)
      have hone := length_of_holds hholds hkey
      omega

/-- Which objects are requests, responses and identities. -/
theorem frames_readByMembers :
    ReadByMembers Request.parse ["method", "params", "id"] Request.Fits Request.From ∧
      ReadByMembers Response.parse ["id", "result", "error"] Response.Fits Response.From ∧
      ReadByMembers Identity.parse ["Name", "Password"] Identity.Fits Identity.From := by
  refine ⟨?_, ?_, ?_⟩
  · refine readByMembers_of_schema (by decide) (fun text r => ?_) (fun _ => Request.fits_iff)
      fun _ _ => Request.from_iff
    exact map_eq_ok_iff_of_inverse (fun _ => rfl) fun _ => rfl
  · refine readByMembers_of_schema (by decide) (fun text r => ?_) (fun _ => Response.fits_iff)
      fun _ _ => Response.from_iff
    exact map_eq_ok_iff_of_inverse (fun _ => rfl) fun _ => rfl
  · refine readByMembers_of_schema (by decide) (fun text g => ?_) (fun _ => Identity.fits_iff)
      fun _ _ => Identity.from_iff
    exact map_eq_ok_iff_of_inverse (fun _ => rfl) fun _ => rfl

/-! A request with a member of another name, an escape in a name and spaces, and the
same request without them. -/

namespace Request

def spacedOut : String := "\x7b\"id\" : null, \"x\":[1],\"m\\u0065thod\":\"go\"\x7d\n"

def closedUp : String := "\x7b\"method\":\"go\",\"id\":null\x7d"

theorem spells_plain {s : List Char}
    (h : s.all (fun c => c != '"' && c != '\\' && !decide (c.toNat < 0x20)) = true) :
    Spells s s := by
  induction s with
  | nil => exact .nil
  | cons c s ih =>
    simp only [List.all_cons, Bool.and_eq_true, bne_iff_ne, Bool.not_eq_true',
      decide_eq_false_iff_not] at h
    obtain ⟨⟨⟨hquote, hslash⟩, hcontrol⟩, hrest⟩ := h
    exact .plain hquote hslash hcontrol (ih hrest)

theorem objectText_spacedOut : ObjectText spacedOut
    [("id", .null), ("x", .list [.number (.ofUInt64 1)]), ("method", .text "go")] := by
  have hone : NumberText ['1'] :=
    @NumberText.of [] ['1'] [] [] (.inl rfl) (.digits (by decide) ⟨by simp, by simp [isDigit]⟩)
      .absent .absent
  have hvalue : readNumber ['1'] = .ok (.ofUInt64 1, []) :=
    readNumber_intChars (i := 1) (by decide) fun c hc => by cases hc
  have hmethod : Spells "m\\u0065thod".toList "method".toList :=
    .plain (by decide) (by decide) (by decide)
      (.unit (n := 0x65) (by decide) (by decide) (by decide) (spells_plain (by decide)))
  have hid : KeyText "\"id\" : ".toList "id" :=
    @KeyText.of [] "id".toList [' '] [' '] "id".toList (by simp [Blank]) (spells_plain (by decide))
      (by simp [Blank, isSpace]) (by simp [Blank, isSpace])
  have hx : KeyText " \"x\":".toList "x" :=
    @KeyText.of [' '] "x".toList [] [] "x".toList (by simp [Blank, isSpace])
      (spells_plain (by decide)) (by simp [Blank]) (by simp [Blank])
  have hname : KeyText "\"m\\u0065thod\":".toList "method" :=
    @KeyText.of [] _ [] [] _ (by simp [Blank]) hmethod (by simp [Blank]) (by simp [Blank])
  have hgo : Denotes 127 "\"go\"".toList (.value (.text "go")) :=
    @Denotes.text 127 "go".toList "go".toList (spells_plain (by decide))
  have hlist : Denotes 127 "[1]".toList (.value (.list [.number (.ofUInt64 1)])) :=
    @Denotes.list 127 ['1'] _ (by decide) (@Denotes.lastItem 126 [] ['1'] [] _ (by simp [Blank])
      (.number hone hvalue) (by simp [Blank]))
  have hlast := @Denotes.lastMember 127 _ _ [] _ _ hname hgo (by simp [Blank])
  have hrest := @Denotes.moreMembers 127 _ _ [] _ _ _ _ hx hlist (by simp [Blank]) hlast
  have hall := @Denotes.moreMembers 127 _ _ [] _ _ _ _ hid .null (by simp [Blank]) hrest
  exact ⟨[], _, ['\n'], by decide, by simp [Blank], .listed hall, by simp [Blank, isSpace]⟩

theorem objectText_closedUp :
    ObjectText closedUp [("method", .text "go"), ("id", .null)] := by
  have hname : KeyText "\"method\":".toList "method" :=
    @KeyText.of [] "method".toList [] [] "method".toList (by simp [Blank])
      (spells_plain (by decide)) (by simp [Blank]) (by simp [Blank])
  have hid : KeyText "\"id\":".toList "id" :=
    @KeyText.of [] "id".toList [] [] "id".toList (by simp [Blank]) (spells_plain (by decide))
      (by simp [Blank]) (by simp [Blank])
  have hgo : Denotes 127 "\"go\"".toList (.value (.text "go")) :=
    @Denotes.text 127 "go".toList "go".toList (spells_plain (by decide))
  have hlast := @Denotes.lastMember 127 _ _ [] _ _ hid .null (by simp [Blank])
  have hall := @Denotes.moreMembers 127 _ _ [] _ _ _ _ hname hgo (by simp [Blank]) hlast
  exact ⟨[], _, [], by decide, by simp [Blank], .listed hall, by simp [Blank]⟩

end Request

theorem request_spacedOut_read :
    Request.parse Request.spacedOut = .ok ⟨"go", .null, .null⟩ ∧
      (Request.parse Request.spacedOut).toOption = (Request.parse Request.closedUp).toOption := by
  refine ⟨(frames_readByMembers.1.fields _ _ Request.objectText_spacedOut _).mpr ?_,
    frames_readByMembers.1.unordered _ _ _ _ Request.objectText_spacedOut
      Request.objectText_closedUp ?_⟩
  · exact ⟨by simp [valuesOf], by simp [valuesOf], .inr ⟨by simp [valuesOf], rfl⟩⟩
  · exact List.Perm.swap _ _ []

end GameRelay.Frame
