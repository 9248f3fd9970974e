/-! Waiting times, in milliseconds. Who waits longer than any run is worth is woken early: after
thirty years of 365 days. -/
namespace Workplan.WaitingTime
set_option autoImplicit false

def longest : Nat := 30 * 365 * 24 * 60 * 60 * 1000

def limited (ms : Nat) : Nat := min ms longest

end Workplan.WaitingTime
