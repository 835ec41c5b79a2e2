import Klogg.Basic
import Klogg.Delimeter
import Klogg.ParseDataBlock
import Klogg.IndexingData
import Klogg.Operation
import Klogg.ParseSpec
import Klogg.OperationSpec
import Klogg.DoIndex
import Klogg.LineIndex
import Klogg.History
import Klogg.ChangeCheck
import Klogg.Reachable
import Klogg.Concurrent
import Klogg.MultiByte
import Klogg.LineWidth
import Klogg.Selection
import Klogg.DelimeterSpec
import Klogg.ParseGuard
import Klogg.ExitPaths
import Klogg.RegexValidation
import Klogg.TabAccumulator
import Klogg.Pipeline
import Klogg.Worker
import Klogg.HsMatcher
import Klogg.QuickFind
import Klogg.SelectionQueries
import Klogg.MainView
import Klogg.FontUtils
