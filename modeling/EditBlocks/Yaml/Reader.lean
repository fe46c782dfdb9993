import EditBlocks.Value.Basic

/-!
# What a configuration file is read with

A configuration file is written in YAML, and it is read by a library of its
own that takes the bytes of the file and gives a value or an error. The
library is given from outside (`Yaml.Reader`). Its errors are of two kinds
(`Yaml.Error`). Those that say that the file is malformed are its own, and a
run that meets one ends with an exit code. The others are whatever goes wrong
inside it: bytes that are no text, a scalar that looks like a number and is
none, a document nested too deeply. Those end the run as they are.

A value can hold itself, by a name that stands for it inside of it. Such a
value is given as far down as it is looked at.
-/

namespace EditBlocks.Yaml

/-- **Why bytes have no value.** -/
inductive Error
  /-- They are no YAML, or a node in it is of a kind that its contents do not
  fit. -/
  | malformed
  /-- Something else goes wrong, with the word for its kind and its
  message. -/
  | unexpected (kind message : Text)
deriving DecidableEq

/-- **What configuration files are read with.** -/
class Reader where
  /-- The value of a file's bytes. -/
  read : List UInt8 → Except Error Value

end EditBlocks.Yaml
