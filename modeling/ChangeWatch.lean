import ChangeWatch.Main
import ChangeWatch.Proofs.Delivery.Course
import ChangeWatch.Proofs.Grouping
import ChangeWatch.Proofs.Strategies
import ChangeWatch.Proofs.Timeless.Reports
import ChangeWatch.Scripted.Listener
import ChangeWatch.Scripted.Pipes
import ChangeWatch.Scripted.Spec
import ChangeWatch.Proofs.Forest.Growth
import ChangeWatch.Proofs.Forest.Removal
import ChangeWatch.Proofs.Histories
import ChangeWatch.Proofs.Forest.Reached
import ChangeWatch.Proofs.Lifetimes.Accounts
import ChangeWatch.Proofs.Rest.Histories
import ChangeWatch.Proofs.Lifetimes.Slots
import ChangeWatch.Proofs.Lifetimes.Detectors
import ChangeWatch.Proofs.Forest.Payloads
import ChangeWatch.Proofs.Lifetimes.Trees
import ChangeWatch.Proofs.Forest.Descent
import ChangeWatch.Proofs.Visits.Order
import ChangeWatch.Proofs.Visits.Course
import ChangeWatch.Proofs.Visits.Passes
import ChangeWatch.Proofs.Visits.Failures
import ChangeWatch.Proofs.Interruptions
import ChangeWatch.Proofs.Grammar.Sentences
import ChangeWatch.Proofs.Grammar.Soundness
import ChangeWatch.Proofs.Grammar.Completeness
import ChangeWatch.Proofs.Unparsing.RoundTrip
import ChangeWatch.Proofs.Unparsing.Meaning
import ChangeWatch.Proofs.Rehearsal.Histories
import ChangeWatch.Proofs.Handles
import ChangeWatch.Proofs.Stepwise
import ChangeWatch.Proofs.Visits.Ticks
import ChangeWatch.Proofs.FirstReports.Histories
import ChangeWatch.Proofs.Visits.FirstOffence
import ChangeWatch.Proofs.Renewal
import ChangeWatch.Proofs.Reports.Coherence
import ChangeWatch.Proofs.Marks
import ChangeWatch.Proofs.Visits.Marked
import ChangeWatch.Proofs.Destruction
import ChangeWatch.Proofs.Differences.Lists
import ChangeWatch.Proofs.Differences.Maps
import ChangeWatch.Proofs.Segments.Braces
import ChangeWatch.Proofs.Unparsing.Maps
import ChangeWatch.Proofs.Applications.Parsed
import ChangeWatch.Proofs.Lexemes.Longest
import ChangeWatch.Proofs.Lexemes.Places
import ChangeWatch.Proofs.Lexemes.Tiling
import ChangeWatch.Proofs.Faults.Blames
import ChangeWatch.Proofs.Faults.Columns
import ChangeWatch.Proofs.Names
import ChangeWatch.Proofs.Sharing
import ChangeWatch.Proofs.Integers.Conversion
import ChangeWatch.Proofs.Integers.Order
import ChangeWatch.Proofs.Copies
import ChangeWatch.Proofs.Integers.Exactness
import ChangeWatch.Proofs.Documents
import ChangeWatch.Proofs.Sameness
import ChangeWatch.Proofs.Lexemes.Escapes
import ChangeWatch.Proofs.Writing.Reports
import ChangeWatch.Proofs.Grammar.Termination
