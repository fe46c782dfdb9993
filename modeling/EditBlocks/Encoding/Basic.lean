import EditBlocks.Encoding.Codecs
import EditBlocks.Encoding.SingleByte
import EditBlocks.Encoding.Utf16
import EditBlocks.Encoding.Utf8
import EditBlocks.Value.Basic

/-!
# Encodings

The encodings of files and their names. Capitals make no difference in a
name, and neither does what signs stand between its words. A setting that
names no encoding stands for UTF-8.

Seven encodings are modelled to the byte, with the errors of each
(`Encoding`): UTF-8 and UTF-16, with and without a mark at the beginning,
Latin-1 and ASCII. They are the ones that the program is meant for. Any other
name is looked up among the codecs that are given from outside (`Codecs`),
and the encoding is then whatever the codec of that name does
(`Encoding.other`).

A name is looked up late. It is looked at when a file is opened, which fails
if it is no text (`Encoding.nameIn`), but its codec is looked for only once
the file is there (`Encoding.named`). So a name that names nothing goes
unnoticed in a run that opens no file.
-/

namespace EditBlocks

/-- **An encoding of text.** -/
inductive Encoding
  | utf8
  /-- UTF-8 with a mark at the beginning. -/
  | utf8Marked
  /-- UTF-16 with a mark at the beginning, which tells the order of bytes. -/
  | utf16
  /-- UTF-16 in a fixed order of bytes. -/
  | utf16In (order : Utf16.Order)
  | latin1
  | ascii
  /-- That of the codec of a name, beside those above. -/
  | other (name : Text)
deriving DecidableEq

namespace Encoding

section

variable [Codecs]

/-- **The text of bytes.** -/
def decode (e : Encoding) (bytes : List UInt8) : Except EncodingError Text :=
  match e with
  | utf8 => (Utf8.decode bytes).mapError .undecodable
  | utf8Marked => (Utf8.decodeMarked bytes).mapError .undecodable
  | utf16 =>
    match Utf16.decodeMarked bytes with
    | .error e => .error (.undecodable e)
    | .ok none => .error .noMark
    | .ok (some t) => .ok t
  | utf16In order => (Utf16.decode order bytes).mapError .undecodable
  | latin1 => .ok (SingleByte.decodeLatin1 bytes)
  | ascii => (SingleByte.decodeAscii 0 bytes).mapError .undecodable
  | other name => Codecs.decode name bytes

/-- **The bytes of a text.** -/
def encode (e : Encoding) (t : Text) : Except EncodingError (List UInt8) :=
  match e with
  | utf8 => .ok (Utf8.encode t)
  | utf8Marked => .ok (Utf8.encodeMarked t)
  | utf16 => .ok (Utf16.encodeMarked t)
  | utf16In order => .ok (Utf16.encode order t)
  | latin1 => (SingleByte.encode "latin-1" 256 0 t).mapError .unencodable
  | ascii => (SingleByte.encode "ascii" 128 0 t).mapError .unencodable
  | other name => Codecs.encode name t

end

/-! ## Names

Each encoding has a first name and some others, all in a plain form, and a
name is put into that form before it is looked up. The others are tried
before the first ones, as they stand and then with underscores for points. -/

/-- The first name of each encoding, in its plain form. -/
def firstNames : List (Text × Encoding) :=
  [("utf_8", utf8), ("utf_8_sig", utf8Marked), ("utf_16", utf16), ("utf_16_le", utf16In .little),
    ("utf_16_be", utf16In .big), ("latin_1", latin1), ("ascii", ascii)]

/-- The other names of each encoding, in their plain form. -/
def otherNames : List (Encoding × List Text) :=
  [(utf8, ["u8", "utf", "utf8", "utf8_ucs2", "utf8_ucs4", "cp65001"]),
    (utf16, ["u16", "utf16"]),
    (utf16In .little, ["utf_16le", "unicodelittleunmarked"]),
    (utf16In .big, ["utf_16be", "unicodebigunmarked"]),
    (latin1, ["8859", "cp819", "csisolatin1", "ibm819", "iso8859", "iso8859_1", "iso_8859_1",
      "iso_8859_1_1987", "iso_ir_100", "l1", "latin", "latin1"]),
    (ascii, ["646", "ansi_x3.4_1968", "ansi_x3_4_1968", "ansi_x3.4_1986", "cp367", "csascii",
      "ibm367", "iso646_us", "iso_646.irv_1991", "iso_ir_6", "us", "us_ascii"])]

/-- A name in its plain form: small letters, digits and points, and one
underscore for whatever stands between them. -/
def plainName (afterSign started : Bool) : Text → Text
  | [] => []
  | c :: t =>
    if c.isAlphanum || c = '.' then
      (if afterSign && started then ['_'] else []) ++ c.toLower :: plainName false true t
    else plainName true started t

/-- The encoding that has another name. -/
def ofOtherName? (plain : Text) : Option Encoding :=
  (otherNames.find? fun e => plain ∈ e.2).map Prod.fst

/-- **The encoding of a name**, if it is one of those that are modelled. In
another name than the first an underscore may stand for a point. -/
def ofName? (name : Text) : Option Encoding :=
  let plain := plainName false false name
  (ofOtherName? plain).or <|
    (ofOtherName? (plain.map fun c => if c = '.' then '_' else c)).or <|
      (firstNames.find? fun e => e.1 = plain).map Prod.snd

/-- The name in a setting, before anything is opened. None stands for the
usual encoding. -/
def nameIn (setting : Value) : Except EncodingError (Option Text) :=
  match setting with
  | .text name => if '\x00' ∈ name then .error .nullCharacter else .ok (some name)
  | .null => .ok none
  | v => .error (.notAName v.kind)

/-- **The encoding that a setting's name stands for**, once something has
been opened. The name of no encoding in particular stands for the usual
one. -/
def named [Codecs] : Option Text → Except EncodingError Encoding
  | none => .ok utf8
  | some name =>
    if name = "locale" then .ok utf8
    else match ofName? name with
      | some e => .ok e
      | none => (Codecs.find name).map fun _ => other name

end Encoding

end EditBlocks
