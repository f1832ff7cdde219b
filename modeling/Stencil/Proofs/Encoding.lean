import Stencil.Encoding
import Stencil.Text.Search

/-!
Encoded text is decoded to what it was.

A decoder reads a text once from the left. Where an entity of the encoding begins it gives the
character of the entity and goes on behind it, and everything else it gives as it is. The text that
was encoded may hold entities itself, whole or in part. Its ampersands are encoded too, so in
encoded text an ampersand always begins an entity, and the decoder is at the front of what became
of a character whenever it has read what became of those before.
-/

namespace Stencil.Encoding

open Text

/-! ### Decoding -/

/-- The entities that an encoding writes, each with the character that it stands for. -/
def entities : Encoding → List (String × Char)
  | none => []
  | html => [("&amp;", '&'), ("&lt;", '<'), ("&gt;", '>'), ("&quot;", '"'), ("&#039;", '\'')]
  | htmlStrict =>
    [("&amp;", '&'), ("&lt;", '<'), ("&gt;", '>'), ("&quot;", '"'), ("&#x27;", '\''),
      ("&#x60;", '\x60'), ("&#x3D;", '=')]

/-- The character of the entity that a text begins with, and what follows the entity. -/
def readEntity? (e : Encoding) (text : List Char) : Option (Char × List Char) :=
  e.entities.findSome? fun (entity, c) => (dropFront? entity.toList text).map (c, ·)

variable {e : Encoding} {c : Char}

/-- An entity begins with an ampersand, and has no other one. -/
theorem ampersand_of_mem_entities {entity : String} (h : (entity, c) ∈ e.entities) :
    ∃ rest, entity.toList = '&' :: rest ∧ '&' ∉ rest := by
  have all : ∀ p ∈ e.entities, p.1.toList.head? = some '&' ∧ '&' ∉ p.1.toList.tail := by
    cases e <;> decide
  obtain ⟨first, others⟩ := all _ h
  obtain ⟨rest, written⟩ := List.head?_eq_some_iff.mp first
  rw [written] at others
  exact ⟨rest, written, others⟩

theorem length_of_readEntity? {text rest : List Char} (h : e.readEntity? text = some (c, rest)) :
    rest.length < text.length := by
  obtain ⟨⟨entity, c'⟩, member, found⟩ := List.exists_of_findSome?_eq_some h
  obtain ⟨rest', dropped, same⟩ := Option.map_eq_some_iff.mp found
  cases same
  obtain ⟨inner, written, -⟩ := ampersand_of_mem_entities member
  rw [dropFront?_eq_some_iff.mp dropped, written]
  simp only [List.length_append, List.length_cons]
  omega

/-- The text with each entity replaced by its character, in one pass from the left. -/
def decodeChars (e : Encoding) (text : List Char) : List Char :=
  match _h : e.readEntity? text with
  | some (c, rest) => c :: e.decodeChars rest
  | Option.none =>
    match text with
    | [] => []
    | c :: rest => c :: e.decodeChars rest
termination_by text.length
decreasing_by
  · exact length_of_readEntity? _h
  · exact Nat.lt_succ_self _

/-- The decoded text. -/
def decode (e : Encoding) (s : String) : String :=
  String.ofList (e.decodeChars s.toList)

theorem decodeChars_of_entity {text rest : List Char} (h : e.readEntity? text = some (c, rest)) :
    e.decodeChars text = c :: e.decodeChars rest := by
  rw [decodeChars]
  split
  · next found =>
    rw [h] at found
    cases found
    rfl
  · next found =>
    rw [h] at found
    cases found

theorem decodeChars_of_none {rest : List Char} (h : e.readEntity? (c :: rest) = Option.none) :
    e.decodeChars (c :: rest) = c :: e.decodeChars rest := by
  rw [decodeChars]
  split
  · next found =>
    rw [h] at found
    cases found
  · rfl

/-! ### What is encoded -/

theorem mem_entities_of_entity? {entity : String} (h : e.entity? c = some entity) :
    (entity, c) ∈ e.entities := by
  cases e with
  | none => cases h
  | html =>
      change htmlEntity? c = some entity at h
      unfold htmlEntity? at h
      repeat' split at h
      all_goals simp_all [entities]
  | htmlStrict =>
      have backtick : c.toNat = 0x60 ↔ c = '\x60' := Char.toNat_inj (c := c) (d := '\x60')
      change strictEntity? c = some entity at h
      unfold strictEntity? at h
      repeat' split at h
      all_goals simp_all [entities]

/-- No entity of the encoding is taken for another one, whatever text follows. -/
theorem readEntity?_of_mem_entities {entity : String} (h : (entity, c) ∈ e.entities)
    (rest : List Char) : e.readEntity? (entity.toList ++ rest) = some (c, rest) := by
  cases e with
  | none => cases h
  | html =>
      simp only [entities, List.mem_cons, Prod.mk.injEq, List.not_mem_nil, or_false] at h
      obtain ⟨rfl, rfl⟩ | ⟨rfl, rfl⟩ | ⟨rfl, rfl⟩ | ⟨rfl, rfl⟩ | ⟨rfl, rfl⟩ := h <;> rfl
  | htmlStrict =>
      simp only [entities, List.mem_cons, Prod.mk.injEq, List.not_mem_nil, or_false] at h
      obtain ⟨rfl, rfl⟩ | ⟨rfl, rfl⟩ | ⟨rfl, rfl⟩ | ⟨rfl, rfl⟩ | ⟨rfl, rfl⟩ | ⟨rfl, rfl⟩ |
        ⟨rfl, rfl⟩ := h <;> rfl

/-- What is written as it is begins no entity. -/
theorem readEntity?_of_entity?_eq_none (h : e.entity? c = Option.none) (rest : List Char) :
    e.readEntity? (c :: rest) = Option.none := by
  refine List.findSome?_eq_none_iff.mpr fun ⟨entity, d⟩ member => ?_
  obtain ⟨inner, written, -⟩ := ampersand_of_mem_entities member
  have other : '&' ≠ c := by
    rintro rfl
    cases e with
    | none => cases member
    | html => cases h
    | htmlStrict => cases h
  simp [written, dropFront?, other]

/-- Behind what became of a text, decoding goes on as if it began there. -/
theorem decodeChars_encodeChars_append (s rest : List Char) :
    e.decodeChars (e.encodeChars s ++ rest) = s ++ e.decodeChars rest := by
  induction s with
  | nil => rfl
  | cons c s ih =>
      rw [encodeChars, List.flatMap_cons, ← encodeChars, List.append_assoc, encodeChar]
      cases found : e.entity? c with
      | some entity =>
          have read := readEntity?_of_mem_entities (mem_entities_of_entity? found)
          rw [decodeChars_of_entity (read _), ih, List.cons_append]
      | none =>
          have plain := readEntity?_of_entity?_eq_none found
          rw [List.singleton_append, decodeChars_of_none (plain _), ih, List.cons_append]

/-- What becomes of one character has no ampersand but one that begins an entity. -/
theorem entity_of_encodeChar (encodes : e ≠ none) {before inside : List Char}
    (h : e.encodeChar c = before ++ '&' :: inside) :
    ∃ p ∈ e.entities, p.1.toList = '&' :: inside := by
  rw [encodeChar] at h
  cases found : e.entity? c with
  | some entity =>
      have member := mem_entities_of_entity? found
      obtain ⟨inner, written, single⟩ := ampersand_of_mem_entities member
      rw [found] at h
      change entity.toList = before ++ '&' :: inside at h
      -- A second ampersand would stand behind the one at the front.
      cases before with
      | nil => exact ⟨_, member, h⟩
      | cons b before =>
          rw [written] at h
          refine absurd ?_ single
          rw [(List.cons.inj h).2]
          exact List.mem_append_right _ List.mem_cons_self
  | none =>
      rw [found] at h
      change [c] = before ++ '&' :: inside at h
      have ampersand : c = '&' := by
        have member : '&' ∈ [c] := by simp [h]
        exact (List.mem_singleton.mp member).symm
      rw [ampersand] at found
      cases e with
      | none => exact absurd rfl encodes
      | html => cases found
      | htmlStrict => cases found

/-- In encoded text an ampersand begins an entity. By induction on the text: the ampersand stands in
what became of the first character, or behind it. -/
theorem entity_of_ampersand (encodes : e ≠ none) {s before after : List Char}
    (h : e.encodeChars s = before ++ '&' :: after) :
    ∃ p ∈ e.entities, p.1.toList <+: '&' :: after := by
  induction s generalizing before with
  | nil => simp [encodeChars] at h
  | cons c s ih =>
      rw [encodeChars, List.flatMap_cons, ← encodeChars] at h
      obtain ⟨before', -, later⟩ | ⟨inside, first, last⟩ := List.append_eq_append_iff.mp h
      · exact ih later
      · cases inside with
        | nil =>
            have here : e.encodeChars s = [] ++ '&' :: after := last.symm
            exact ih here
        | cons i inside =>
            obtain ⟨rfl, rest⟩ := List.cons.inj last
            obtain ⟨p, member, written⟩ := entity_of_encodeChar encodes first
            exact ⟨p, member, by rw [written, rest]; exact List.prefix_append _ _⟩

/-- What was encoded is decoded to what it was, whatever entities it held. -/
theorem decode_encode (e : Encoding) (s : String) : e.decode (e.encode s) = s := by
  have all := decodeChars_encodeChars_append (e := e) s.toList []
  have nothing : e.decodeChars [] = [] := by
    rw [decodeChars]
    cases e <;> rfl
  rw [List.append_nil, nothing, List.append_nil] at all
  rw [decode, encode, String.toList_ofList, all, String.ofList_toList]

/-- An encoding that writes entities is undone by decoding in one pass. In what it writes every
ampersand begins an entity, texts are encoded part by part, and two texts that are encoded alike
are the same. -/
theorem encode_decodable (e : Encoding) (encodes : e ≠ none) :
    (∀ s, e.decode (e.encode s) = s) ∧
      (∀ s before after, (e.encode s).toList = before ++ '&' :: after →
        ∃ p ∈ e.entities, p.1.toList <+: '&' :: after) ∧
      (∀ s t, e.encode (s ++ t) = e.encode s ++ e.encode t) ∧
      (∀ s t, e.encode s = e.encode t → s = t) := by
  refine ⟨e.decode_encode, fun s before after h => ?_, fun s t => ?_, fun s t same => ?_⟩
  · rw [encode, String.toList_ofList] at h
    exact entity_of_ampersand encodes h
  · rw [encode, String.toList_append, encodeChars_append, String.ofList_append]
    rfl
  · rw [← e.decode_encode s, same, e.decode_encode]

/-- Texts that hold an entity, a part of one and a lone ampersand. -/
theorem encode_decodable_entities :
    (html ≠ none ∧ html.encode "&lt;b & &amp" = "&amp;lt;b &amp; &amp;amp" ∧
      html.decode "&amp;lt;b &amp; &amp;amp" = "&lt;b & &amp") ∧
    (htmlStrict ≠ none ∧ htmlStrict.encode "&#x3D;='" = "&amp;#x3D;&#x3D;&#x27;" ∧
      htmlStrict.decode "&amp;#x3D;&#x3D;&#x27;" = "&#x3D;='") := by
  have first : html.encode "&lt;b & &amp" = "&amp;lt;b &amp; &amp;amp" := by decide +kernel
  have second : htmlStrict.encode "&#x3D;='" = "&amp;#x3D;&#x3D;&#x27;" := by decide +kernel
  refine ⟨⟨by decide, first, ?_⟩, by decide, second, ?_⟩
  · rw [← first]
    exact (encode_decodable html (by decide)).1 _
  · rw [← second]
    exact (encode_decodable htmlStrict (by decide)).1 _

end Stencil.Encoding
