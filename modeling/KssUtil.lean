import KssUtil.Containers.CircularArrayWorld
import KssUtil.Containers.CircularArrayCompare
import KssUtil.Containers.CircularArrayCapacity
import KssUtil.Containers.CircularArrayAssign
import KssUtil.Containers.CircularArrayRefinement
import KssUtil.Containers.CircularArrayRuns
import KssUtil.Containers.CircularArrayLaws
import KssUtil.Containers.SequentialMap
import KssUtil.Containers.SequentialMapRefinement
import KssUtil.Containers.SequentialMapRuns
import KssUtil.Foundation.Numeral
import KssUtil.Foundation.Gregorian
import KssUtil.Libc.Numbers
import KssUtil.Libc.Time
import KssUtil.Time.Duration
import KssUtil.Time.Iso8601
import KssUtil.Time.Iso8601Text
import KssUtil.Time.Iso8601Offsets
import KssUtil.Time.Iso8601RoundTrip
import KssUtil.Time.Iso8601Grammar
import KssUtil.Libc.Streams
import KssUtil.Time.DurationStreams
import KssUtil.Strings.Convert
import KssUtil.Strings.DurationText
import KssUtil.Libc.Getopt
import KssUtil.Options.ProgramOptions
import KssUtil.Options.CommandLine
import KssUtil.Containers.EraseIf
import KssUtil.Containers.CircularArrayOrder
import KssUtil.Containers.CircularArrayMove
import KssUtil.Options.FailedParse
import KssUtil.Libc.GetoptVariables
import KssUtil.Options.History
import KssUtil.Libc.GetoptAlike
import KssUtil.Options.FirstParse
import KssUtil.Iterators.ForwardIterator
import KssUtil.Strings.Tokenizer
import KssUtil.Foundation.Interleaving
import KssUtil.Time.ZoneEnvironment
import KssUtil.Time.Localized
import KssUtil.Containers.CircularArrayThrows
import KssUtil.Containers.CircularArrayFailures
import KssUtil.Containers.SequentialMapErase
import KssUtil.Containers.SequentialMapComparator
import KssUtil.Time.Iso8601Instants
import KssUtil.Time.Iso8601Accuracy
import KssUtil.Time.Iso8601Assertions
import KssUtil.Time.Iso8601Subseconds
import KssUtil.Time.Iso8601Ranges
import KssUtil.Time.Iso8601Formatters
import KssUtil.Time.LocalizedFailures
import KssUtil.Time.ZoneRestore
import KssUtil.Libc.Literals
import KssUtil.Strings.ConvertInteger
import KssUtil.Foundation.Spacing
import KssUtil.Strings.BasicString
import KssUtil.Strings.Occurrences
import KssUtil.Strings.CaseInsensitive
import KssUtil.Strings.SubString
import KssUtil.Strings.SubStringWrites
import KssUtil.Strings.SubStringWindows
import KssUtil.Strings.SubStringCStr
import KssUtil.Options.OptionString
import KssUtil.Libc.GetoptFindings
import KssUtil.Options.MissingArgument
import KssUtil.Iterators.RandomAccess
import KssUtil.Strings.Trimming
import KssUtil.Foundation.CircularOrder
import KssUtil.Strings.Affixes
import KssUtil.Strings.WideCompare
import KssUtil.Foundation.Decades
import KssUtil.Numeric.NiceNumber
import KssUtil.Strings.Format
import KssUtil.Process.ChangeUser
import KssUtil.Identifiers.CanonicalText
import KssUtil.Identifiers.Uuid
import KssUtil.Options.ArgumentVector
import KssUtil.Options.ArgumentVectorRuns
import KssUtil.Time.Iso8601OffsetText
import KssUtil.Process.Daemon
import KssUtil.Values.Attributes
import KssUtil.Options.WrittenLines
import KssUtil.Strings.TokenizerReaders
import KssUtil.Scopes.Resources
import KssUtil.Options.Sessions
import KssUtil.Time.Iso8601Order
import KssUtil.Identifiers.UuidOrder
import KssUtil.Containers.CircularArrayTemplates
import KssUtil.Time.DurationLogs
import KssUtil.Strings.TypedRecords
import KssUtil.Strings.SubStringFields
