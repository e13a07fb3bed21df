import Mathlib.Data.List.Basic
import Mathlib.Tactic.Common

/-!
# Text in HTML

What a page shows of some HTML: what is left when the tags are removed and the entities are decoded. Programs leave it to
a library how a text is written into HTML, so a `TextEncoding` is any way to write texts without a `<`, where parts of a
text can be written one after the other, with a way to read them back. `TextEncoding.basic` is such a way.

HTML that shows a text on its own also shows it before other HTML (`Shows`), so that it can be put together from parts.
-/

namespace ArchipelagoXL.Html

/-- HTML without its tags, from the inside of a tag or from the outside. -/
def withoutTags : Bool → List Char → List Char
  | _, [] => []
  | true, c :: rest => withoutTags (c != '>') rest
  | false, c :: rest => if c = '<' then withoutTags true rest else c :: withoutTags false rest

structure TextEncoding where
  encode : List Char → List Char
  decode : List Char → List Char
  encode_append (a b : List Char) : encode (a ++ b) = encode a ++ encode b
  noTag (text : List Char) : '<' ∉ encode text
  decode_encode (text : List Char) : decode (encode text) = text

section
variable (encoding : TextEncoding)

/-- The text that HTML shows. -/
def shownText (html : List Char) : List Char := encoding.decode (withoutTags false html)

/-- HTML that shows a text, whatever HTML follows. -/
def Shows (html text : List Char) : Prop :=
  ∀ rest, withoutTags false (html ++ rest) = encoding.encode text ++ withoutTags false rest

lemma withoutTags_text {text : List Char} (noTag : '<' ∉ text) (rest : List Char) :
    withoutTags false (text ++ rest) = text ++ withoutTags false rest := by
  induction text with
  | nil => rfl
  | cons c text ih =>
    rw [List.mem_cons, not_or] at noTag
    rw [List.cons_append, withoutTags, if_neg (Ne.symm noTag.1), ih noTag.2, List.cons_append]

lemma withoutTags_inside {inside : List Char} (open' : '>' ∉ inside) (rest : List Char) :
    withoutTags true (inside ++ '>' :: rest) = withoutTags false rest := by
  induction inside with
  | nil => rfl
  | cons c inside ih =>
    rw [List.mem_cons, not_or] at open'
    have inTag : (c != '>') = true := bne_iff_ne.mpr (Ne.symm open'.1)
    rw [List.cons_append, withoutTags, inTag, ih open'.2]

variable {encoding}

lemma encode_nil : encoding.encode [] = [] := by
  have twice := congrArg List.length (encoding.encode_append [] [])
  rw [List.append_nil, List.length_append] at twice
  exact List.length_eq_zero_iff.mp (by omega)

lemma encode_eq_nil {text : List Char} (none : encoding.encode text = []) : text = [] := by
  have same : encoding.encode text = encoding.encode [] := none.trans encode_nil.symm
  rw [← encoding.decode_encode text, same, encoding.decode_encode]

lemma Shows.shownText_eq {html text : List Char} (shows : Shows encoding html text) : shownText encoding html = text := by
  have whole := shows []
  rw [List.append_nil, withoutTags, List.append_nil] at whole
  rw [shownText, whole, encoding.decode_encode]

lemma Shows.nil : Shows encoding [] [] := by
  intro rest
  rw [encode_nil]
  rfl

lemma Shows.append {html html' text text' : List Char} (first : Shows encoding html text)
    (second : Shows encoding html' text') : Shows encoding (html ++ html') (text ++ text') := by
  intro rest
  rw [List.append_assoc, first, second, encoding.encode_append, List.append_assoc]

/-- Parts of a text are shown one after the other. -/
lemma Shows.flatten {A : Type} {html text : A → List Char} {parts : List A}
    (shows : ∀ part ∈ parts, Shows encoding (html part) (text part)) :
    Shows encoding (parts.map html).flatten (parts.map text).flatten := by
  induction parts with
  | nil => exact .nil
  | cons part parts ih =>
    rw [List.map_cons, List.map_cons, List.flatten_cons, List.flatten_cons]
    exact (shows part List.mem_cons_self).append (ih fun other mem => shows other (List.mem_cons_of_mem part mem))

lemma Shows.encode (text : List Char) : Shows encoding (encoding.encode text) text :=
  withoutTags_text (encoding.noTag text)

lemma Shows.tag {inside : List Char} (open' : '>' ∉ inside) : Shows encoding ('<' :: (inside ++ ['>'])) [] := by
  intro rest
  rw [encode_nil, List.cons_append, withoutTags, if_pos rfl, List.append_assoc, List.singleton_append,
    withoutTags_inside open', List.nil_append]

/-- An element shows what its content shows. -/
lemma Shows.element {start stop html text : List Char} (content : Shows encoding html text) (openStart : '>' ∉ start)
    (openStop : '>' ∉ stop) :
    Shows encoding ('<' :: (start ++ ['>']) ++ (html ++ '<' :: (stop ++ ['>']))) text := by
  have whole := (Shows.tag openStart).append (content.append (.tag openStop))
  rwa [List.append_nil, List.nil_append] at whole

end

/-! ## Three entities -/

def encodeChar (c : Char) : List Char :=
  if c = '&' then "&amp;".toList else if c = '<' then "&lt;".toList else if c = '>' then "&gt;".toList else [c]

def decodeEntities : List Char → List Char
  | '&' :: 'a' :: 'm' :: 'p' :: ';' :: rest => '&' :: decodeEntities rest
  | '&' :: 'l' :: 't' :: ';' :: rest => '<' :: decodeEntities rest
  | '&' :: 'g' :: 't' :: ';' :: rest => '>' :: decodeEntities rest
  | c :: rest => c :: decodeEntities rest
  | [] => []

lemma decodeEntities_encodeChar (c : Char) (rest : List Char) :
    decodeEntities (encodeChar c ++ rest) = c :: decodeEntities rest := by
  rw [encodeChar]
  split_ifs with amp lt gt
  · rw [amp]
    exact decodeEntities.eq_1 rest
  · rw [lt]
    exact decodeEntities.eq_2 rest
  · rw [gt]
    exact decodeEntities.eq_3 rest
  · rw [List.singleton_append, decodeEntities]
    all_goals exact fun _ is => absurd is amp

/-- The three characters that have a meaning in HTML are written as entities. -/
def TextEncoding.basic : TextEncoding where
  encode := List.flatMap encodeChar
  decode := decodeEntities
  encode_append _ _ := List.flatMap_append
  noTag text := by
    rw [List.mem_flatMap]
    rintro ⟨c, -, mem⟩
    rw [encodeChar] at mem
    split_ifs at mem with amp lt gt
    · exact absurd mem (by decide)
    · exact absurd mem (by decide)
    · exact absurd mem (by decide)
    · exact lt (List.mem_singleton.mp mem).symm
  decode_encode text := by
    induction text with
    | nil => rfl
    | cons c text ih => rw [List.flatMap_cons, decodeEntities_encodeChar, ih]

end ArchipelagoXL.Html
