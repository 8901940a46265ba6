import JniProbe.Properties.Aggregates
import JniProbe.Properties.AttachWindow
import JniProbe.Properties.CStrings
import JniProbe.Properties.CallForest
import JniProbe.Properties.CallTree
import JniProbe.Properties.CallVariants
import JniProbe.Properties.ClassFilters
import JniProbe.Properties.CommandLine
import JniProbe.Properties.CommandRaces
import JniProbe.Properties.DescriptorGrammar
import JniProbe.Properties.DisplayOptions
import JniProbe.Properties.Durations
import JniProbe.Properties.EnvRetirement
import JniProbe.Properties.FileOffsets
import JniProbe.Properties.Grep
import JniProbe.Properties.JsonLines
import JniProbe.Properties.LateReads
import JniProbe.Properties.LiveFilters
import JniProbe.Properties.LoadBias
import JniProbe.Properties.Losses
import JniProbe.Properties.MethodNames
import JniProbe.Properties.ModuleAnswers
import JniProbe.Properties.NameLookup
import JniProbe.Properties.NarrowerFilters
import JniProbe.Properties.NoReturns
import JniProbe.Properties.NumericTexts
import JniProbe.Properties.OffsetFile
import JniProbe.Properties.Overlaps
import JniProbe.Properties.RealCalls
import JniProbe.Properties.RecordedOffsets
import JniProbe.Properties.SlotFilters
import JniProbe.Properties.SlotKinds
import JniProbe.Properties.StaleBytes
import JniProbe.Properties.Startup
import JniProbe.Properties.StoredMethods
import JniProbe.Properties.StringTexts
import JniProbe.Properties.TableScan
import JniProbe.Properties.ThreadChurn
import JniProbe.Properties.ThreadIsolation
import JniProbe.Properties.TopCalls
import JniProbe.Properties.VaLists
import JniProbe.Properties.WireFormat
