/-! # Arithmetic on naturals

A power or a sum of naturals is the core library's wherever it is written, also where an algebraic
hierarchy with instances of its own is in scope: the definitions that run need no such hierarchy,
and the lemmas about them speak of the same powers and sums. -/

-- The number is above `high`, the priority at which the hierarchy offers its own power.
attribute [default_instance 20000, instance (20000)] instPowNat

attribute [instance (20000)] Zero.ofOfNat0
