/-!
The instances that are meant where a library knows several for one type: powers of whole numbers and the
equality of bytes are the core's.
-/

attribute [instance (high)] instPowNat
attribute [default_instance 20000] instPowNat
attribute [instance (high)] ByteArray.instDecidableEq
