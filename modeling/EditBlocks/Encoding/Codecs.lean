import EditBlocks.Encoding.Error

/-!
# Codecs

A setting names the encoding of the files by a name that is looked up among
all codecs of what runs the program, and of those the program itself knows
none. A few of them are modelled, because what a run keeps of a file is about
their bytes (`Encoding`). The others are given from outside (`Codecs`):
whether there is a codec of a name, what it reads bytes as, and what it
writes a text as.

Nothing is asked of them. A codec may fail to read what it wrote, or read
what it cannot write, as some of the older ones do; where a theorem needs
that it does not, it says so (`Encoding.ReadsBack`).
-/

namespace EditBlocks

/-- **What a codec says of bytes or a text that it has no use for.** -/
structure CodecError where
  /-- The word for the kind of the error. -/
  kind : Text
  /-- Its message. -/
  message : Text
deriving DecidableEq

/-- **Why a text cannot be read or written.** -/
inductive EncodingError
  /-- The bytes are no text. -/
  | undecodable (e : DecodeError)
  /-- The encoding lacks some of the text's characters. -/
  | unencodable (e : EncodeError)
  /-- Text whose order of bytes is told by a mark lacks it. -/
  | noMark
  /-- No encoding has that name. -/
  | unknown (name : Text)
  /-- What should name an encoding is not a text. -/
  | notAName (kind : Text)
  /-- A name holds a null character. -/
  | nullCharacter
  /-- A codec that is given from outside fails, or is none for texts. -/
  | codec (e : CodecError)
deriving DecidableEq

/-- The message of a text that cannot be read or written. -/
def EncodingError.message : EncodingError → Text
  | undecodable e => e.message
  | unencodable e => e.message
  | noMark => "UTF-16 stream does not start with BOM"
  | unknown name => "unknown encoding: " ++ name
  | notAName kind => "open() argument 'encoding' must be str or None, not " ++ kind
  | nullCharacter => "embedded null character"
  | codec e => e.message

/-- **The codecs beside those that are modelled**, by their names. -/
class Codecs where
  /-- Whether there is a codec of a name. -/
  find : Text → Except EncodingError Unit
  /-- What the codec of a name reads bytes as. -/
  decode : Text → List UInt8 → Except EncodingError Text
  /-- What the codec of a name writes a text as. -/
  encode : Text → Text → Except EncodingError (List UInt8)

end EditBlocks
